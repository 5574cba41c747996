import Mathlib

/-!
# Left joins

Rows under names, joined with one table after the other. A left join that finds one row at most
adds nothing but what is under its own name, and may be left out where nothing depends on that.
-/

namespace OpenVoxDB.LeftJoins

variable {A R : Type} [DecidableEq A]

/-- A join with the rows of a table under a name. -/
structure Step (A R : Type) where
  outer : Bool
  name : A
  rows : List R
  on : (A → Option R) → Bool

namespace Step

variable (s : Step A R)

/-- The rows that are joined to what is there. -/
def matching (env : A → Option R) : List R :=
  s.rows.filter fun r => s.on (Function.update env s.name (some r))

/-- A left join keeps what has no match, with no row under the name. -/
def extend (env : A → Option R) : List (A → Option R) :=
  if s.outer && (s.matching env).isEmpty then [Function.update env s.name none]
  else (s.matching env).map fun r => Function.update env s.name (some r)

end Step

def run (steps : List (Step A R)) (envs : List (A → Option R)) : List (A → Option R) :=
  steps.foldl (fun envs s => envs.flatMap s.extend) envs

/-- The same rows under the names of a set. -/
def Alike (K : Set A) : List (A → Option R) → List (A → Option R) → Prop :=
  List.Forall₂ fun env env' => Set.EqOn env env' K

variable {K : Set A}

omit [DecidableEq A] in
theorem Alike.refl (envs : List (A → Option R)) : Alike K envs envs :=
  List.forall₂_same.mpr fun env _ => Set.eqOn_refl env K

theorem eqOn_update (env env' : A → Option R) (a : A) (r : Option R) (h : Set.EqOn env env' K) :
    Set.EqOn (Function.update env a r) (Function.update env' a r) K := by
  intro b hb
  by_cases hba : b = a
  · rw [hba, Function.update_self, Function.update_self]
  · rw [Function.update_of_ne hba, Function.update_of_ne hba]
    exact h hb

/-- A join that only looks at the names of a set. -/
theorem extend_alike (s : Step A R) (hon : DependsOn s.on K) (env env' : A → Option R)
    (h : Set.EqOn env env' K) : Alike K (s.extend env) (s.extend env') := by
  have hmatching : s.matching env = s.matching env' := by
    apply List.filter_congr
    intro r _
    exact hon (eqOn_update env env' s.name (some r) h)
  rw [Step.extend, Step.extend, hmatching]
  split
  · exact .cons (eqOn_update env env' s.name none h) .nil
  · apply List.forall₂_map_left_iff.mpr
    apply List.forall₂_map_right_iff.mpr
    exact List.forall₂_same.mpr fun r _ => eqOn_update env env' s.name (some r) h

/-- A left join with one match at most has one row for each row. -/
theorem extend_single (s : Step A R) (houter : s.outer = true) (hname : s.name ∉ K)
    (env : A → Option R) (hone : (s.matching env).length ≤ 1) :
    ∃ env', s.extend env = [env'] ∧ Set.EqOn env' env K := by
  have hupdate (r : Option R) : Set.EqOn (Function.update env s.name r) env K := by
    intro a ha
    apply Function.update_of_ne
    rintro rfl
    exact hname ha
  rw [Step.extend, houter, Bool.true_and]
  cases hrows : s.matching env with
  | nil => exact ⟨_, rfl, hupdate none⟩
  | cons r rows =>
    rw [hrows, List.length_cons] at hone
    obtain rfl : rows = [] := List.eq_nil_of_length_eq_zero (by omega)
    exact ⟨_, rfl, hupdate (some r)⟩

omit [DecidableEq A] in
theorem flatMap_alike (f g : (A → Option R) → List (A → Option R))
    (envs envs' : List (A → Option R)) (h : Alike K envs envs')
    (hfg : ∀ env env', Set.EqOn env env' K → Alike K (f env) (g env')) :
    Alike K (envs.flatMap f) (envs'.flatMap g) := by
  induction h with
  | nil => exact .nil
  | cons hhead _ ih =>
    rw [List.flatMap_cons, List.flatMap_cons]
    exact List.rel_append (hfg _ _ hhead) ih

/-- Left joins with one match at most can be left out, where the others look at the names that are
kept. -/
theorem run_filter {J : Type} (step : J → Step A R) (joins : List J) (keep : J → Bool)
    (hkeep : ∀ j ∈ joins, keep j = true → DependsOn (step j).on K)
    (hdrop : ∀ j ∈ joins, keep j = false → (step j).outer = true ∧ (step j).name ∉ K ∧
      ∀ env, ((step j).matching env).length ≤ 1)
    (envs envs' : List (A → Option R)) (h : Alike K envs envs') :
    Alike K (run (joins.map step) envs) (run ((joins.filter keep).map step) envs') := by
  induction joins generalizing envs envs' with
  | nil => exact h
  | cons j joins ih =>
    obtain ⟨hj, hkeep⟩ := List.forall_mem_cons.mp hkeep
    obtain ⟨hj', hdrop⟩ := List.forall_mem_cons.mp hdrop
    rw [List.map_cons, run, List.foldl_cons]
    cases hkept : keep j with
    | true =>
      rw [List.filter_cons_of_pos hkept, List.map_cons, run, List.foldl_cons]
      exact ih hkeep hdrop _ _ (flatMap_alike _ _ envs envs' h (extend_alike _ (hj hkept)))
    | false =>
      obtain ⟨houter, hname, hone⟩ := hj' hkept
      rw [List.filter_cons_of_neg (by simp [hkept])]
      have hstep := flatMap_alike (step j).extend (fun env => [env]) envs envs' h
        fun env env' hsame => by
          obtain ⟨env'', hextend, hsame'⟩ := extend_single _ houter hname env (hone env)
          rw [hextend]
          exact .cons (hsame'.trans hsame) .nil
      rw [List.flatMap_singleton'] at hstep
      exact ih hkeep hdrop _ _ hstep

omit [DecidableEq A] in
theorem filter_alike (p : (A → Option R) → Bool) (hp : DependsOn p K)
    (envs envs' : List (A → Option R)) (h : Alike K envs envs') :
    Alike K (envs.filter p) (envs'.filter p) := by
  induction h with
  | nil => exact .nil
  | cons hhead _ ih =>
    have hsame := hp hhead
    rw [List.filter_cons, List.filter_cons, hsame]
    split
    · exact .cons hhead ih
    · exact ih

omit [DecidableEq A] in
theorem map_alike {B : Type} (f : (A → Option R) → B) (hf : DependsOn f K)
    (envs envs' : List (A → Option R)) (h : Alike K envs envs') : envs.map f = envs'.map f := by
  induction h with
  | nil => rfl
  | cons hhead _ ih => rw [List.map_cons, List.map_cons, ih, hf hhead]

/-- An inner join with a table without rows leaves none. -/
theorem run_eq_nil (steps : List (Step A R)) (s : Step A R) (hs : s ∈ steps)
    (houter : s.outer = false) (hrows : s.rows = []) (envs : List (A → Option R)) :
    run steps envs = [] := by
  have hnil (steps : List (Step A R)) : run steps [] = [] := by
    induction steps with
    | nil => rfl
    | cons s steps ih => exact ih
  induction steps generalizing envs with
  | nil => cases hs
  | cons s' steps ih =>
    rw [run, List.foldl_cons]
    cases List.mem_cons.mp hs with
    | inl hsame =>
      have hextend : envs.flatMap s'.extend = [] := by
        apply List.flatMap_eq_nil_iff.mpr
        intro env _
        rw [← hsame, Step.extend, houter, Step.matching, hrows]
        rfl
      rw [hextend]
      exact hnil steps
    | inr hrest => exact ih hrest _

/-- Joins with one match each leave as many rows as there were. -/
theorem length_run (steps : List (Step A R)) (hone : ∀ s ∈ steps, ∀ env, (s.extend env).length = 1)
    (envs : List (A → Option R)) : (run steps envs).length = envs.length := by
  induction steps generalizing envs with
  | nil => rfl
  | cons s steps ih =>
    obtain ⟨hs, hsteps⟩ := List.forall_mem_cons.mp hone
    have hlength : (envs.flatMap s.extend).length = envs.length := by
      rw [List.length_flatMap]
      simp [hs]
    rw [run, List.foldl_cons, ← hlength]
    exact ih hsteps _

end OpenVoxDB.LeftJoins
