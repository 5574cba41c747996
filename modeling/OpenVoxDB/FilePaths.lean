import Mathlib

/-!
# Abstract path names

A path name keeps no slash that follows another and none at its end. A child is resolved against
its parent only when it is relative.
-/

namespace OpenVoxDB.FilePaths

/-- Of slashes that follow each other, the last one stays. -/
def collapse : List Char → List Char
  | [] => []
  | c :: cs => if c = '/' ∧ cs.head? = some '/' then collapse cs else c :: collapse cs

/-- A path other than the root has no slash at its end. -/
def dropTrailing (path : List Char) : List Char :=
  if path ≠ ['/'] ∧ path.getLast? = some '/' then path.dropLast else path

def normalize (path : List Char) : List Char := dropTrailing (collapse path)

def isAbsolute (path : List Char) : Bool := path.head? = some '/'

/-- The path of a file given its parent's and its own, both normalized. -/
def resolve (parent child : List Char) : List Char :=
  if child = [] then parent
  else if isAbsolute child then (if parent = ['/'] then child else parent ++ child)
  else if parent = ['/'] then parent ++ child
  else parent ++ '/' :: child

/-- A child that is absolute is refused. -/
def file (parent child : List Char) : Option (List Char) :=
  if isAbsolute (normalize child) then none else some (resolve parent (normalize child))

theorem head?_collapse (path : List Char) : (collapse path).head? = path.head? := by
  induction path with
  | nil => rfl
  | cons c cs ih =>
    rw [collapse]
    split
    · rename_i h
      rw [ih, h.2, h.1]
      rfl
    · rfl

/-- No slash follows another. -/
def Single (path : List Char) : Prop := ¬ ['/', '/'] <:+: path

theorem single_cons (c : Char) (cs : List Char) :
    Single (c :: cs) ↔ ¬ (c = '/' ∧ cs.head? = some '/') ∧ Single cs := by
  rw [Single, Single, List.infix_cons_iff, not_or]
  refine and_congr_left fun _ => not_congr ?_
  cases cs with
  | nil => simp
  | cons d ds => simp [eq_comm]

theorem length_collapse (path : List Char) : (collapse path).length ≤ path.length := by
  induction path with
  | nil => exact le_rfl
  | cons c cs ih =>
    rw [collapse]
    split
    · rw [List.length_cons]
      omega
    · rw [List.length_cons, List.length_cons]
      omega

/-- What stays the same is what has no slash after another. -/
theorem collapse_eq_self_iff (path : List Char) : collapse path = path ↔ Single path := by
  induction path with
  | nil => simp [collapse, Single]
  | cons c cs ih =>
    rw [single_cons, collapse]
    by_cases h : c = '/' ∧ cs.head? = some '/'
    · rw [if_pos h]
      refine iff_of_false (fun he => ?_) fun hs => hs.1 h
      have hlength := length_collapse cs
      rw [he, List.length_cons] at hlength
      omega
    · rw [if_neg h, List.cons_inj_right, ih]
      exact (and_iff_right h).symm

theorem collapse_append (path rest : List Char) (hrest : '/' ∉ rest) :
    collapse (path ++ rest) = collapse path ++ rest := by
  have hself : ∀ cs : List Char, '/' ∉ cs → collapse cs = cs := by
    intro cs hcs
    refine (collapse_eq_self_iff cs).mpr fun h => hcs (h.subset List.mem_cons_self)
  induction path with
  | nil => exact hself rest hrest
  | cons c cs ih =>
    have hhead : (cs ++ rest).head? = some '/' ↔ cs.head? = some '/' := by
      cases cs with
      | nil =>
        cases rest with
        | nil => rfl
        | cons r rs =>
          have hr : r ≠ '/' := fun he => hrest (he ▸ List.mem_cons_self)
          simp [hr]
      | cons d ds => rfl
    rw [List.cons_append, collapse, collapse, ih]
    simp only [hhead]
    split <;> rfl

theorem mem_collapse (path : List Char) (c : Char) : c ∈ collapse path ↔ c ∈ path := by
  induction path with
  | nil => rfl
  | cons d ds ih =>
    rw [collapse]
    split
    · rename_i h
      rw [ih, List.mem_cons]
      refine ⟨.inr, fun hc => hc.elim (fun he => ?_) id⟩
      rw [he, h.1]
      exact List.mem_of_head? h.2
    · rw [List.mem_cons, List.mem_cons, ih]

/-- A file whose name ends without a slash. -/
theorem file_append (parent path ending : List Char) (hparent : parent ≠ ['/'])
    (hne : ending ≠ []) (hending : '/' ∉ ending) :
    file parent (path ++ ending) =
      if path.head? = some '/' then none
      else some (parent ++ '/' :: (collapse path ++ ending)) := by
  have hnormalize : normalize (path ++ ending) = collapse path ++ ending := by
    rw [normalize, collapse_append path ending hending, dropTrailing, if_neg]
    rintro ⟨-, hlast⟩
    rw [List.getLast?_append_of_ne_nil _ hne] at hlast
    exact hending (List.mem_of_getLast? hlast)
  have hhead : (collapse path ++ ending).head? = some '/' ↔ path.head? = some '/' := by
    rw [← head?_collapse path]
    cases collapse path with
    | nil =>
      refine iff_of_false (fun h => hending (List.mem_of_head? h)) (by simp)
    | cons c cs => rfl
  rw [file, hnormalize]
  by_cases h : path.head? = some '/'
  · rw [if_pos h, if_pos]
    simpa [isAbsolute] using hhead.mpr h
  · have hrelative : isAbsolute (collapse path ++ ending) = false := by
      simpa [isAbsolute] using fun h' => h (hhead.mp h')
    have hchild : collapse path ++ ending ≠ [] :=
      fun he => hne (List.append_eq_nil_iff.mp he).2
    rw [if_neg h, hrelative, if_neg Bool.false_ne_true, resolve, if_neg hchild, hrelative,
      if_neg Bool.false_ne_true, if_neg hparent]

end OpenVoxDB.FilePaths
