import LuaAudit.Index.Catalogue
import LuaAudit.Proofs.OrderedMap
import Mathlib.Algebra.BigOperators.Group.Finset.Basic
import Mathlib.Algebra.GroupWithZero.Nat
import Mathlib.Data.List.Nodup
import Mathlib.Data.List.Perm.Basic

/-!
# In which order the sources are asked

The entries of the preferred names come first, then all others.  A name that is preferred twice
comes twice, so its entry is listed twice and its functions are counted twice.  A lookup does not
notice: it goes by the first mention of each name.

* `turns`: the names of the entries in the order in which they are asked;
* `preference`: every name once, by first mention and then by insertion;
* `map_some_ordered`: the entries are those of the turns, and none is passed over;
* `count_turns` and `turns_eq_preference_iff`: how often a name has its turn;
* `ordered_as_named`: all of it, for every catalogue and all settings.
-/

namespace LuaAudit.Index

open Docs (Entry Signature)

/-! ### First mentions -/

section FirstMentions

variable {κ β : Type} [DecidableEq κ]

theorem nodup_eraseDups (ks : List κ) : ks.eraseDups.Nodup := by
  induction ks using List.reverseRecOn with
  | nil => exact List.nodup_nil
  | append_singleton ks k ih =>
    rw [OrderedMap.eraseDups_concat]
    split
    next => exact ih
    next hnew =>
      rw [← List.concat_eq_append]
      exact ih.concat (by simpa using hnew)

theorem eraseDups_eq_self {ks : List κ} (h : ks.Nodup) : ks.eraseDups = ks := by
  induction ks using List.reverseRecOn with
  | nil => rfl
  | append_singleton ks k ih =>
    have hparts := List.nodup_append.1 h
    have hnew : k ∉ ks := fun hk => hparts.2.2 k hk k (by simp) rfl
    rw [OrderedMap.eraseDups_concat, if_neg hnew, ih hparts.1]

/-- A search that goes on until something is found does not notice what is mentioned again. -/
theorem findSome?_eraseDups (f : κ → Option β) (ks : List κ) :
    ks.eraseDups.findSome? f = ks.findSome? f := by
  induction ks using List.reverseRecOn with
  | nil => rfl
  | append_singleton ks k ih =>
    rw [OrderedMap.eraseDups_concat, List.findSome?_append]
    split
    next hknown =>
      rw [ih]
      cases hfound : ks.findSome? f with
      | some b => rfl
      | none =>
        -- It was asked before, and had nothing.
        simp [List.findSome?_eq_none_iff.1 hfound k hknown]
    next => rw [List.findSome?_append, ih]

end FirstMentions

/-! ### Turns -/

namespace Catalogue

variable (s : Settings) (c : Catalogue)

/-- The names of the entries in the order in which they are asked: the preferred ones as often as
    they are named, then the others as they were inserted. -/
def turns : List String :=
  (s.roster .sourcePriority).filter c.entries.contains ++
    c.entries.keys.filter fun name => !(s.roster .sourcePriority).contains name

/-- The names of the entries, each once: the preferred ones by first mention, then the others as
    they were inserted. -/
def preference : List String :=
  ((s.roster .sourcePriority).filter c.entries.contains).eraseDups ++
    c.entries.keys.filter fun name => !(s.roster .sourcePriority).contains name

theorem contains_eq_isSome (name : String) :
    c.entries.contains name = (c.entries.get? name).isSome := by
  rw [Bool.eq_iff_iff, OrderedMap.contains_iff, Option.isSome_iff_exists]

theorem mem_turns_iff (name : String) : name ∈ turns s c ↔ name ∈ c.entries.keys := by
  have hcontains : c.entries.contains name = true ↔ name ∈ c.entries.keys := by
    rw [OrderedMap.contains, List.contains_iff_mem]
  rw [turns, List.mem_append, List.mem_filter, List.mem_filter, hcontains]
  by_cases hnamed : name ∈ s.roster .sourcePriority <;> simp [hnamed]

/-- The entries come in turn, and none is passed over. -/
theorem map_some_ordered : (c.ordered s).map some = (turns s c).map c.entries.get? := by
  rw [ordered, turns, List.map_append, List.map_append]
  congr 1
  · induction s.roster .sourcePriority with
    | nil => rfl
    | cons name names ih =>
      rw [List.filterMap_cons, List.filter_cons, contains_eq_isSome]
      cases hget : c.entries.get? name with
      | none => simpa using ih
      | some e => simpa [hget] using ih
  · rw [OrderedMap.keys, List.filter_map, List.map_map, List.map_map]
    apply List.map_congr_left
    rintro ⟨name, e⟩ he
    exact ((c.entries.mem_entries_iff name e).1 (List.mem_filter.1 he).1).symm

/-- A name has its turn as often as it is preferred, and once when it is not. -/
theorem count_turns {name : String} (h : name ∈ c.entries.keys) :
    (turns s c).count name = max 1 ((s.roster .sourcePriority).count name) := by
  have hcontains : c.entries.contains name = true := by
    rwa [OrderedMap.contains, List.contains_iff_mem]
  rw [turns, List.count_append, List.count_filter hcontains]
  by_cases hnamed : name ∈ s.roster .sourcePriority
  · have hrest : (c.entries.keys.filter fun name =>
        !(s.roster .sourcePriority).contains name).count name = 0 :=
      List.count_eq_zero.2 fun hmem => by simp [hnamed] at hmem
    have hpos := List.count_pos_iff.2 hnamed
    omega
  · have hone : c.entries.keys.count name = 1 := List.count_eq_one_of_mem c.entries.nodup_keys h
    rw [List.count_eq_zero.2 hnamed, List.count_filter (by simp [hnamed]), hone]
    rfl

/-- The turns by first mention. -/
theorem eraseDups_turns : (turns s c).eraseDups = preference s c := by
  rw [turns, List.eraseDups_append, preference]
  congr 1
  -- None of the others was preferred, and they are different.
  have hothers : (c.entries.keys.filter fun name =>
      !(s.roster .sourcePriority).contains name).removeAll
        ((s.roster .sourcePriority).filter c.entries.contains) =
      c.entries.keys.filter fun name => !(s.roster .sourcePriority).contains name := by
    rw [List.removeAll, List.filter_eq_self]
    intro name hname
    have hnot : name ∉ s.roster .sourcePriority := by simpa using (List.mem_filter.1 hname).2
    simp [hnot]
  rw [hothers]
  exact eraseDups_eq_self (c.entries.nodup_keys.filter _)

/-- By first mention every entry comes exactly once. -/
theorem perm_preference : (preference s c).Perm c.entries.keys := by
  rw [← eraseDups_turns, List.perm_ext_iff_of_nodup (nodup_eraseDups _) c.entries.nodup_keys]
  intro name
  rw [List.mem_eraseDups, mem_turns_iff]

/-- Every entry has one turn exactly when none of their names is preferred twice. -/
theorem turns_eq_preference_iff :
    turns s c = preference s c ↔
      ∀ name ∈ c.entries.keys, (s.roster .sourcePriority).count name ≤ 1 := by
  constructor
  · intro h name hname
    have hcount := count_turns s c hname
    rw [h, (perm_preference s c).count_eq,
      List.count_eq_one_of_mem c.entries.nodup_keys hname] at hcount
    omega
  · intro h
    rw [← eraseDups_turns]
    refine (eraseDups_eq_self (List.nodup_iff_count_le_one.2 fun name => ?_)).symm
    by_cases hname : name ∈ c.entries.keys
    · have hle := h name hname
      rw [count_turns s c hname]
      omega
    · rw [List.count_eq_zero.2 fun hmem => hname ((mem_turns_iff s c name).1 hmem)]
      omega

/-! ### Listings and lookups -/

/-- How many functions the entry of a name has. -/
def entrySize (name : String) : Nat := (c.entries.get? name).elim 0 fun e => e.functions.size

/-- The functions of an entry are listed in each of its turns. -/
theorem length_functions : (c.functions s).length = ((turns s c).map c.entrySize).sum := by
  have hsizes : (c.ordered s).map (fun e => e.functions.values.length) =
      ((c.ordered s).map some).map fun o => o.elim 0 fun e => e.functions.size := by
    simp [OrderedMap.values, OrderedMap.size]
  rw [functions, List.length_flatMap, hsizes, map_some_ordered, List.map_map]
  rfl

/-- So there are as many as all entries have, each counted as often as it has its turn. -/
theorem length_functions_eq_sum :
    (c.functions s).length = (c.entries.entries.map fun e =>
      max 1 ((s.roster .sourcePriority).count e.1) * e.2.functions.size).sum := by
  have hsame : (turns s c).toFinset = c.entries.keys.toFinset := by
    ext name
    rw [List.mem_toFinset, List.mem_toFinset, mem_turns_iff]
  have hentries : c.entries.entries.map (fun e =>
        max 1 ((s.roster .sourcePriority).count e.1) * e.2.functions.size) =
      c.entries.keys.map fun name =>
        max 1 ((s.roster .sourcePriority).count name) * c.entrySize name := by
    rw [OrderedMap.keys, List.map_map]
    apply List.map_congr_left
    rintro ⟨name, e⟩ he
    have hget := (c.entries.mem_entries_iff name e).1 he
    simp [entrySize, hget]
  rw [length_functions, Finset.sum_list_map_count, hsame, hentries,
    ← List.sum_toFinset _ c.entries.nodup_keys]
  apply Finset.sum_congr rfl
  intro name hname
  rw [count_turns s c (List.mem_toFinset.1 hname), Nat.nsmul_eq_mul]

/-- A lookup asks the names by first mention. -/
theorem lookup?_eq (name : String) :
    c.lookup? s name = (preference s c).findSome? fun source =>
      (c.entries.get? source).bind fun e => e.functions.get? name := by
  have hturns : c.lookup? s name = ((c.ordered s).map some).findSome? fun o =>
      o.bind fun e => e.functions.get? name := by
    rw [lookup?, List.findSome?_map]
    rfl
  rw [hturns, map_some_ordered, List.findSome?_map, ← eraseDups_turns, findSome?_eraseDups]
  rfl

/-- **The order of the sources.**  For every catalogue and all settings, the entries come in turn,
    and none is passed over.  A name has its turn as often as it is preferred, and once when it is
    not; by first mention that is the preferred names in their order and then the others as they
    were inserted.  So every entry comes exactly once if and only if none of their names is
    preferred twice, and a listing has the functions of an entry as often as it has its turn.  A
    lookup finds the function in the first entry by first mention that has it, in any case. -/
theorem ordered_as_named :
    (c.ordered s).map some = (turns s c).map c.entries.get? ∧
    (∀ name ∈ c.entries.keys,
      (turns s c).count name = max 1 ((s.roster .sourcePriority).count name)) ∧
    ((turns s c).eraseDups = preference s c ∧ (preference s c).Perm c.entries.keys) ∧
    (turns s c = preference s c ↔
      ∀ name ∈ c.entries.keys, (s.roster .sourcePriority).count name ≤ 1) ∧
    (c.functions s).length = (c.entries.entries.map fun e =>
      max 1 ((s.roster .sourcePriority).count e.1) * e.2.functions.size).sum ∧
    ∀ name, c.lookup? s name = (preference s c).findSome? fun source =>
      (c.entries.get? source).bind fun e => e.functions.get? name :=
  ⟨map_some_ordered s c, fun _ => count_turns s c, ⟨eraseDups_turns s c, perm_preference s c⟩,
    turns_eq_preference_iff s c, length_functions_eq_sum s c, lookup?_eq s c⟩

end Catalogue

/-- Settings that prefer one name twice. -/
def preferringTwice : Settings := Settings.default.setRoster .sourcePriority ["wiki", "wiki"]

/-- A catalogue of one source with one function. -/
def oneSource : Catalogue where
  path := ⟨.root, ["docs.json"]⟩
  entries := .ofList [("wiki", {
    source := "wiki"
    functions := .ofList [("draw", { name := "draw", source := "wiki" })]
    updated := .ofSeconds 0 })]

/-- The one entry is listed twice. -/
theorem not_all_entries_once :
    ¬ ∀ (s : Settings) (c : Catalogue), ∃ names : List String, names.Perm c.entries.keys ∧
      (c.ordered s).map some = names.map c.entries.get? := by
  intro h
  obtain ⟨names, hperm, hlist⟩ := h preferringTwice oneSource
  have hlength := congrArg List.length hlist
  rw [List.length_map, List.length_map, hperm.length_eq] at hlength
  revert hlength
  decide

end LuaAudit.Index
