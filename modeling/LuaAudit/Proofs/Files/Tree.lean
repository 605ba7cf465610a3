import LuaAudit.Proofs.Files.Write
import LuaAudit.Proofs.Location.Uri

/-!
# Trees of files

In a tree every file and directory bears a name and stands in a directory.  So whatever stands below
a place is reached from it by its names, as far as the directories on the way may be passed through.

* `Tree`: what makes files and directories a tree;
* `Tree.directory_of_append`: every place on the way to something is a directory;
* `Tree.locate_below`: the way leads there, unless it is barred or too long to be written;
* `mem_listing`: what is listed in a directory.
-/

namespace LuaAudit

open Location (IsName Path)

/-- A path some components further. -/
def Location.Path.below (p : Path) (rel : List String) : Path := ⟨p.anchor, p.parts ++ rel⟩

theorem Location.Path.below_nil (p : Path) : p.below [] = p := by
  rw [below, List.append_nil]

theorem Location.Path.child_below (p : Path) (name : String) (rel : List String) :
    (p.child name).below rel = p.below (name :: rel) := by
  simp [child, below]

theorem Location.Path.below_inj {p : Path} {rel rel' : List String} :
    p.below rel = p.below rel' ↔ rel = rel' := by
  simp [below]

namespace Files

variable {fs : Files}

/-- Whether a name holds the character that no path may hold. -/
def hasNul (name : String) : Bool := name.toList.any fun c => c.toNat = 0

/-- Files and directories with names, each of them in a directory. -/
structure Tree (fs : Files) : Prop where
  named : ∀ place ∈ fs.nodes.keys, ∀ name ∈ place, IsName name
  onward : ∀ place ∈ fs.nodes.keys, ∀ name ∈ place, name ≠ ".." ∧ hasNul name = false
  standing : ∀ place ∈ fs.nodes.keys, fs.node? place.dropLast = some .directory

instance (fs : Files) : Decidable fs.Tree :=
  decidable_of_iff
    ((∀ place ∈ fs.nodes.keys, ∀ name ∈ place, IsName name) ∧
      (∀ place ∈ fs.nodes.keys, ∀ name ∈ place, name ≠ ".." ∧ hasNul name = false) ∧
      ∀ place ∈ fs.nodes.keys, fs.node? place.dropLast = some .directory)
    ⟨fun h => ⟨h.1, h.2.1, h.2.2⟩, fun h => ⟨h.named, h.onward, h.standing⟩⟩

/-! ### Ways -/

theorem mem_keys_of_node? {place : Place} {node : Node} (h : fs.node? place = some node)
    (hplace : place ≠ []) : place ∈ fs.nodes.keys := by
  rw [node?, if_neg hplace] at h
  exact (OrderedMap.mem_keys_iff _ _).2 ⟨node, h⟩

/-- Steps that go onward append their names. -/
theorem foldl_step {rel : List String} (hrel : ∀ name ∈ rel, name ≠ "..") (place : Place) :
    rel.foldl step place = place ++ rel := by
  induction rel generalizing place with
  | nil => simp
  | cons name rel ih =>
    rw [List.forall_mem_cons] at hrel
    rw [List.foldl_cons, step, if_neg hrel.1, ih hrel.2, List.append_assoc, List.singleton_append]

/-- Where a path some components further comes to. -/
theorem resolve_below {rel : List String} (hrel : ∀ name ∈ rel, name ≠ "..") (p : Path) :
    (fs.resolve (p.below rel)).parts = (fs.resolve p).parts ++ rel := by
  show (p.parts ++ rel).foldl step (fs.origin p) = _
  rw [List.foldl_append, foldl_step hrel]
  rfl

namespace Tree

variable (h : fs.Tree)
include h

/-- **Every place on the way** to something is a directory. -/
theorem directory_of_append {place : Place} {rel : List String} (hrel : rel ≠ [])
    (hmem : place ++ rel ∈ fs.nodes.keys) : fs.node? place = some .directory := by
  -- from the end of the way, one directory after the other
  induction rel using List.reverseRecOn with
  | nil => exact absurd rfl hrel
  | append_singleton rel name ih =>
    have hparent := h.standing _ hmem
    rw [← List.append_assoc, List.dropLast_concat] at hparent
    by_cases hnil : rel = []
    · rwa [hnil, List.append_nil] at hparent
    · exact ih hnil (mem_keys_of_node? hparent (by simp [hnil]))

/-- The way to something leads there, unless a directory is closed or a name too long. -/
theorem follow_below {place : Place} {rel : List String}
    (hmem : rel = [] ∨ place ++ rel ∈ fs.nodes.keys) :
    fs.follow place rel = .ok (place ++ rel) ∨ fs.follow place rel = .error .denied ∨
      fs.follow place rel = .error .tooLong := by
  induction rel generalizing place with
  | nil => exact .inl (by rw [List.append_nil]; rfl)
  | cons name rel ih =>
    replace hmem : place ++ name :: rel ∈ fs.nodes.keys := by simpa using hmem
    have hname : name ≠ ".." := (h.onward _ hmem name (by simp)).1
    rw [follow, pass, h.directory_of_append (List.cons_ne_nil _ _) hmem]
    dsimp only
    by_cases hclosed : fs.closed.contains place = true
    · rw [if_pos hclosed]
      exact .inr (.inl rfl)
    · rw [if_neg hclosed]
      by_cases hlong : fs.nameLimit < name.utf8ByteSize
      · rw [if_pos hlong]
        exact .inr (.inr rfl)
      · rw [if_neg hlong, step, if_neg hname]
        have hway : place ++ name :: rel = place ++ [name] ++ rel := List.append_cons place name rel
        rw [hway] at hmem ⊢
        exact ih (.inr hmem)

/-- **What stands below the place of a path** is found under its names, unless a directory on the
    way is closed or the way too long to be written. -/
theorem locate_below {p : Path} {place : Place} (hplace : fs.locate p = .ok place)
    {rel : List String} (hmem : rel = [] ∨ place ++ rel ∈ fs.nodes.keys) :
    fs.locate (p.below rel) = .ok (place ++ rel) ∨ fs.locate (p.below rel) = .error .denied ∨
      fs.locate (p.below rel) = .error .tooLong := by
  obtain ⟨hclean, -, hfollow⟩ := locate_eq_ok_iff.1 hplace
  have hnames : ∀ name ∈ rel, hasNul name = false := by
    rcases hmem with rfl | hmem
    · simp
    · exact fun name hname => (h.onward _ hmem name (List.mem_append_right _ hname)).2
  have hnul : (p.below rel).parts.any hasNul = false := by
    have hnone : rel.any hasNul = false := by
      rw [List.any_eq_false]
      exact fun name hname => by simp [hnames name hname]
    rw [Path.below, List.any_append, hnone, Bool.or_false]
    exact hclean
  show (if (p.below rel).parts.any hasNul then _ else _) = _ ∨ _ ∨ _
  unfold locate
  rw [show (p.below rel).parts.any (·.toList.any fun c => c.toNat = 0) = false from hnul, hnul,
    if_neg Bool.false_ne_true]
  split
  · exact .inr (.inr rfl)
  · have hway : fs.follow (fs.origin (p.below rel)) (p.below rel).parts = fs.follow place rel := by
      show fs.follow (fs.origin p) (p.parts ++ rel) = _
      rw [follow_append, hfollow]
      rfl
    rw [hway]
    exact h.follow_below hmem

end Tree

/-! ### Listings -/

/-- A listing holds what stands right below the place. -/
theorem mem_listing {place : Place} {name : String} {node : Node} :
    (name, node) ∈ fs.listing place ↔ fs.nodes.get? (place ++ [name]) = some node := by
  rw [listing, List.mem_filterMap]
  constructor
  · rintro ⟨⟨k, found⟩, hk, hlast⟩
    dsimp only at hlast
    split at hlast
    next hbelow =>
      obtain ⟨rel, rfl⟩ := List.isPrefixOf_iff_prefix.1 hbelow.2
      obtain ⟨last, rfl⟩ : ∃ last, rel = [last] := by
        rw [← List.length_eq_one_iff]
        have hlength := hbelow.1
        rw [List.length_append] at hlength
        omega
      rw [List.getLast?_concat] at hlast
      obtain ⟨rfl, rfl⟩ := Prod.mk.inj (Option.some.inj hlast)
      exact (OrderedMap.mem_entries_iff _ _ _).1 hk
    next => cases hlast
  · intro hget
    exact ⟨(place ++ [name], node), (OrderedMap.mem_entries_iff _ _ _).2 hget,
      by simp [List.isPrefixOf_iff_prefix]⟩

/-- A listing names nothing twice. -/
theorem nodup_listing (fs : Files) (place : Place) : ((fs.listing place).map Prod.fst).Nodup := by
  have hkeys : (fs.listing place).map Prod.fst = fs.nodes.keys.filterMap fun k =>
      if k.length = place.length + 1 ∧ place.isPrefixOf k then k.getLast? else none := by
    rw [listing, List.map_filterMap, OrderedMap.keys, List.filterMap_map]
    refine congrArg (List.filterMap · _) (funext fun e => ?_)
    rw [Function.comp_apply]
    split
    · cases e.1.getLast? <;> rfl
    · rfl
  rw [hkeys]
  refine List.Nodup.filterMap ?_ fs.nodes.nodup_keys
  intro k k' name hk hk'
  rw [Option.mem_def] at hk hk'
  split at hk
  next hbelow =>
    split at hk'
    next hbelow' =>
      obtain ⟨rel, rfl⟩ := List.isPrefixOf_iff_prefix.1 hbelow.2
      obtain ⟨rel', rfl⟩ := List.isPrefixOf_iff_prefix.1 hbelow'.2
      simp only [List.length_append, Nat.add_left_cancel_iff] at hbelow hbelow'
      obtain ⟨last, rfl⟩ := List.length_eq_one_iff.1 hbelow.1
      obtain ⟨last', rfl⟩ := List.length_eq_one_iff.1 hbelow'.1
      rw [List.getLast?_concat] at hk hk'
      rw [Option.some.inj hk, Option.some.inj hk']
    next => cases hk'
  next => cases hk

/-- A directory is listed where its path leads to one that may be listed. -/
theorem list_eq_ok_iff {p : Path} {entries : List (String × Node)} : fs.list p = .ok entries ↔
    ∃ place, fs.locate p = .ok place ∧ fs.node? place = some .directory ∧
      fs.denied.contains place = false ∧ entries = fs.listing place := by
  unfold list
  cases fs.locate p with
  | error fault => simp
  | ok place =>
    simp only [Except.ok.injEq, exists_eq_left']
    cases fs.node? place with
    | none => simp
    | some node =>
      cases node with
      | file bytes => simp
      | directory => cases hdenied : fs.denied.contains place <;> simp [eq_comm]

end Files

end LuaAudit
