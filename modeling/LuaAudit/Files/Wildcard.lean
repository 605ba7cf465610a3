/-!
# Wildcards

A pattern for one component of a path: `*` stands for any characters, `?` for one, and a set in
brackets for one of its members, or with `!` for one that is not.

* `Wildcard.parse` reads a pattern;
* `Wildcard.isMatch` decides whether a name fits.
-/

namespace LuaAudit

/-- One item of a pattern. -/
inductive Wildcard where
  | anything
  | anyChar
  | exactly (c : Char)
  | oneOf (negated : Bool) (ranges : List (Char × Char))
  deriving DecidableEq, Repr

namespace Wildcard

/-- The pieces of a set between the hyphens that make ranges.  A hyphen counts only when `wait`
    other characters were passed since the last one that did. -/
def pieces : (wait : Nat) → (piece : List Char) → List Char → List (List Char)
  | _, piece, [] => [piece.reverse]
  | 0, piece, '-' :: cs => piece.reverse :: pieces 2 [] cs
  | wait, piece, c :: cs => pieces (wait - 1) (c :: piece) cs

/-- A hyphen at the end makes no range: it belongs to the piece before it. -/
def mendLast (ps : List (List Char)) : List (List Char) :=
  match ps.reverse with
  | [] :: p :: rest => ((p ++ ['-']) :: rest).reverse
  | _ => ps

/-- Joins two pieces whose range would run backwards, leaving out its ends. -/
def dropBackward : List (List Char) → List (List Char)
  | [] => []
  | p :: ps =>
    match dropBackward ps with
    | [] => [p]
    | q :: qs =>
      match p.getLast?, q.head? with
      | some a, some b => if b < a then (p.dropLast ++ q.drop 1) :: qs else p :: q :: qs
      | _, _ => p :: q :: qs

/-- The ranges of a set: each character of a piece alone, and from the end of a piece to the start
    of the next. -/
def rangesOf : List (List Char) → List (Char × Char)
  | [] => []
  | [p] => p.map fun c => (c, c)
  | p :: q :: ps =>
    let between := match p.getLast?, q.head? with
      | some a, some b => [(a, b)]
      | _, _ => [('-', '-')]
    p.map (fun c => (c, c)) ++ between ++ rangesOf (q :: ps)

/-- The item that a set in brackets stands for. -/
def setOf (content : List Char) : Wildcard :=
  match content with
  | '!' :: rest => .oneOf true (rangesOf (dropBackward (mendLast (pieces 1 [] rest))))
  | rest => .oneOf false (rangesOf (dropBackward (mendLast (pieces 1 [] rest))))

/-- How many characters at the start of a set cannot close it. -/
def setLead : List Char → Nat
  | '!' :: ']' :: _ => 2
  | '!' :: _ => 1
  | ']' :: _ => 1
  | _ => 0

/-- The content of a set after its opening bracket, and what follows its closing one.  A closing
    bracket right at the start, or after `!`, belongs to the set. -/
def setContent? (cs : List Char) : Option (List Char × List Char) :=
  match (cs.drop (setLead cs)).dropWhile (· != ']') with
  | [] => none
  | _ :: rest =>
    some (cs.take (setLead cs) ++ (cs.drop (setLead cs)).takeWhile (· != ']'), rest)

theorem setContent?_length {cs content rest : List Char}
    (h : setContent? cs = some (content, rest)) : rest.length < cs.length := by
  unfold setContent? at h
  split at h
  · cases h
  next c tail htail =>
    have e : tail = rest := (Prod.mk.inj (Option.some.inj h)).2
    have h1 := (List.dropWhile_sublist (fun c => c != ']') (l := cs.drop (setLead cs))).length_le
    rw [htail, List.length_cons, List.length_drop] at h1
    rw [← e]; omega

/-- Reads a pattern.  A bracket that is not closed stands for itself. -/
def parse (cs : List Char) : List Wildcard :=
  match cs with
  | [] => []
  | '*' :: rest => .anything :: parse rest
  | '?' :: rest => .anyChar :: parse rest
  | '[' :: rest =>
    match h : setContent? rest with
    | some (content, tail) =>
      have : tail.length < rest.length := setContent?_length h
      setOf content :: parse tail
    | none => .exactly '[' :: parse rest
  | c :: rest => .exactly c :: parse rest
  termination_by cs.length
  decreasing_by all_goals simp_wf; all_goals omega

/-- Whether one character fits an item that takes one. -/
def takes : Wildcard → Char → Bool
  | .anything, _ => true
  | .anyChar, _ => true
  | .exactly d, c => c == d
  | .oneOf negated ranges, c => (ranges.any fun r => r.1 ≤ c && c ≤ r.2) != negated

/-- Whether a whole name fits a pattern. -/
def isMatch : List Wildcard → List Char → Bool
  | [], cs => cs.isEmpty
  | .anything :: ws, [] => isMatch ws []
  | .anything :: ws, c :: cs => isMatch ws (c :: cs) || isMatch (.anything :: ws) cs
  | _ :: _, [] => false
  | w :: ws, c :: cs => takes w c && isMatch ws cs
  termination_by ws cs => ws.length + cs.length

end Wildcard

end LuaAudit
