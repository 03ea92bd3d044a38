import AdClick.Library.FixedDigits

/-!
# ECMAScript strings

The string methods the services call with literal arguments: `split` at a one-character separator,
`replace` of the first occurrence of a character, and `substring` from a start to an end index. An
index counts the 16-bit code units of a text.
-/

set_option autoImplicit false

namespace AdClick.Ecma

open AdClick.Library

/-- `text.split(sep)`. -/
def split (text : String) (sep : Char) : List String :=
  (text.toList.splitOn sep).map String.ofList

/-- Replace the first `old` of a text. -/
def replaceChars (old new : Char) : List Char → List Char
  | [] => []
  | c :: cs => if c = old then new :: cs else c :: replaceChars old new cs

/-- `text.replace(old, new)`. -/
def replace (text : String) (old new : Char) : String :=
  String.ofList (replaceChars old new text.toList)

/-- A character of the basic plane is one code unit of a text, any other one is two. -/
def isBasic (c : Char) : Bool := c.toNat < 0x10000

/-- What stands here for half a character; no text of Lean can hold one. -/
def halfChar : Char := Char.ofNat 0xFFFD

/-- The first code units of a text. -/
def takeUnits : List Char → Nat → List Char
  | _, 0 => []
  | [], _ + 1 => []
  | c :: cs, n + 1 =>
    if isBasic c then c :: takeUnits cs n
    else
      match n with
      | 0 => [halfChar]
      | n + 1 => c :: takeUnits cs n

/-- What is left behind the first code units of a text. -/
def dropUnits : List Char → Nat → List Char
  | cs, 0 => cs
  | [], _ + 1 => []
  | c :: cs, n + 1 =>
    if isBasic c then dropUnits cs n
    else
      match n with
      | 0 => halfChar :: cs
      | n + 1 => dropUnits cs n

/-- `text.substring(first, last)` for `first ≤ last`. -/
def substring (text : String) (first last : Nat) : String :=
  String.ofList (takeUnits (dropUnits text.toList first) (last - first))

theorem isBasic_of_isDigit {c : Char} (h : c.isDigit = true) : isBasic c = true := by
  have hle : c.toNat ≤ '9'.toNat := (Char.isDigit_iff_toNat.1 h).2
  have hnine : '9'.toNat = 57 := rfl
  rw [isBasic, decide_eq_true_eq]
  omega

/-- In the basic plane the code units are the characters. -/
theorem takeUnits_eq_take {cs : List Char} (h : ∀ c ∈ cs, isBasic c = true) (n : Nat) :
    takeUnits cs n = cs.take n := by
  induction cs generalizing n with
  | nil => cases n <;> rfl
  | cons c cs ih =>
    obtain ⟨hc, hcs⟩ := List.forall_mem_cons.1 h
    cases n with
    | zero => rfl
    | succ n => exact (if_pos hc).trans (congrArg (c :: ·) (ih hcs n))

/-- A text without the separator is its own only part. -/
theorem split_of_not_mem {s : String} {sep : Char} (h : sep ∉ s.toList) : split s sep = [s] := by
  rw [split, List.splitOn_eq_singleton h]
  simp

/-- Joining two texts by the separator joins their parts. -/
theorem split_append (s t : String) (sep : Char) :
    split (s ++ String.singleton sep ++ t) sep = split s sep ++ split t sep := by
  have hjoin : (s ++ String.singleton sep ++ t).toList = s.toList ++ sep :: t.toList := by simp
  rw [split, hjoin, List.splitOn_append_cons_self, List.map_append, split, split]

/-- A text with a separator in it has at least two parts. -/
theorem split_of_mem {text : String} {sep : Char} (h : sep ∈ text.toList) :
    ∃ first second parts, split text sep = first :: second :: parts := by
  obtain ⟨cs, ds, htext⟩ := List.append_of_mem h
  rw [split, htext, List.splitOn_append_cons_self, List.map_append]
  cases hcs : cs.splitOn sep with
  | nil => exact absurd hcs (List.splitOn_ne_nil sep cs)
  | cons first parts =>
    cases hds : ds.splitOn sep with
    | nil => exact absurd hds (List.splitOn_ne_nil sep ds)
    | cons next rest =>
      cases parts with
      | nil => exact ⟨_, _, _, rfl⟩
      | cons second parts => exact ⟨_, _, _, rfl⟩

theorem not_mem_of_mem_splitOn {sep : Char} {cs : List Char} :
    ∀ {part : List Char}, part ∈ cs.splitOn sep → sep ∉ part := by
  induction cs with
  | nil =>
    intro part h
    rw [List.splitOn_nil, List.mem_singleton] at h
    rw [h]
    exact List.not_mem_nil
  | cons c cs ih =>
    intro part h
    rw [List.splitOn_cons_eq_if_modifyHead] at h
    split at h
    · rcases List.mem_cons.1 h with rfl | hrest
      · exact List.not_mem_nil
      · exact ih hrest
    · -- the character joins the first part of the rest
      rename_i hc
      cases hsplit : cs.splitOn sep with
      | nil => exact absurd hsplit (List.splitOn_ne_nil sep cs)
      | cons first rest =>
        rw [hsplit] at h ih
        rcases List.mem_cons.1 h with rfl | hrest
        · intro hmem
          rcases List.mem_cons.1 hmem with rfl | hmem
          · simp at hc
          · exact ih List.mem_cons_self hmem
        · exact ih (List.mem_cons_of_mem first hrest)

/-- No part contains the separator. -/
theorem not_mem_of_mem_split {text part : String} {sep : Char} (h : part ∈ split text sep) :
    sep ∉ part.toList := by
  obtain ⟨cs, hcs, rfl⟩ := List.mem_map.1 h
  rw [String.toList_ofList]
  exact not_mem_of_mem_splitOn hcs

theorem split_ne_nil (text : String) (sep : Char) : split text sep ≠ [] := by
  rw [split]
  simp [List.splitOn_ne_nil]

theorem replaceChars_append_cons {old new : Char} {cs ds : List Char} (h : old ∉ cs) :
    replaceChars old new (cs ++ old :: ds) = cs ++ new :: ds := by
  induction cs with
  | nil => simp [replaceChars]
  | cons c cs ih =>
    have hc : ¬ c = old := fun e => h (e ▸ List.mem_cons_self)
    have hcs : old ∉ cs := fun hm => h (List.mem_cons_of_mem _ hm)
    simp [replaceChars, hc, ih hcs]

end AdClick.Ecma
