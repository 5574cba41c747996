import Mathlib
import OpenVoxDB.JoinRows

/-!
# Queries without unused joins

Without the joins that it does not require a query has the same rows just where those are left
joins, and where all that it names is still there.
-/

namespace OpenVoxDB.JoinAgreement

open Plans Entities JoinDropping LeftJoins JoinRows

variable {V : Type} (names : String → List String) {e query : QueryRec V}
  {filter : Option (Plan V)}

/-! ## Rows -/

section Rows

variable {R Val : Type} {db : Database V R Val}

/-- A filter depends on the tables of its columns. -/
theorem truth_dependsOn (K : Set String) (hlaw : db.Lawful query)
    (hsources : ∀ t ∈ sources query, t ∈ K) (plan : Plan V)
    (hplan : ∀ c ∈ columnsOf query.projections plan, ∀ t ∈ c.field.tables, t ∈ K) :
    DependsOn (fun env => truthOf (db.conditions env) plan) K := by
  have hcondition (leaf : Plan V) (hleaf : ∀ c ∈ conditionColumns query.projections leaf,
      ∀ t ∈ c.field.tables, t ∈ K) : DependsOn (db.holds leaf) K := by
    apply DependsOn.mono _ (hlaw.holds leaf)
    rintro t (⟨c, hc, ht⟩ | ht)
    · exact hleaf c hc t ht
    · exact hsources t ht
  have hclauses (clauses : List (Plan V)) (ih : ∀ plan ∈ clauses,
      (∀ c ∈ columnsOf query.projections plan, ∀ t ∈ c.field.tables, t ∈ K) →
        DependsOn (fun env => truthOf (db.conditions env) plan) K)
      (hcolumns : ∀ c ∈ clauseColumns query.projections clauses, ∀ t ∈ c.field.tables, t ∈ K) :
      DependsOn (fun env => truthsOf (db.conditions env) clauses) K := by
    induction clauses with
    | nil => exact fun x y _ => rfl
    | cons clause clauses ihclauses =>
      obtain ⟨hclause, hrest⟩ := List.forall_mem_cons.mp ih
      intro x y hxy
      have hhead := hclause (fun c hc => hcolumns c (List.mem_append_left _ hc)) hxy
      have htail := ihclauses hrest (fun c hc => hcolumns c (List.mem_append_right _ hc)) hxy
      have hhead' : truthOf (db.conditions x) clause = truthOf (db.conditions y) clause := hhead
      have htail' : truthsOf (db.conditions x) clauses = truthsOf (db.conditions y) clauses :=
        htail
      simp only [truthsOf, hhead', htail']
  induction plan using Plan.ind with
  | and clauses ih =>
    intro x y hxy
    have hsame : truthsOf (db.conditions x) clauses = truthsOf (db.conditions y) clauses :=
      hclauses clauses ih hplan hxy
    simp only [truthOf, hsame]
  | or clauses ih =>
    intro x y hxy
    have hsame : truthsOf (db.conditions x) clauses = truthsOf (db.conditions y) clauses :=
      hclauses clauses ih hplan hxy
    simp only [truthOf, hsame]
  | not clause ih =>
    intro x y hxy
    have hsame : truthOf (db.conditions x) clause = truthOf (db.conditions y) clause :=
      ih hplan hxy
    simp only [truthOf, hsame]
  | _ => exact hcondition _ hplan

theorem read_dependsOn (hsound : Sound (parts e)) (hextract : ExtractOf names e query)
    (hextracted : (query.call.isEmpty && query.projectedFields.isEmpty) = false)
    (hnames : NamesKept query filter) (hlaw : db.Lawful query) :
    DependsOn (db.read query) (kept query filter) := by
  have hvalue (field : Field) (h : ∀ t ∈ field.tables, t ∈ kept query filter) :
      DependsOn (db.value field) (kept query filter) := by
    apply DependsOn.mono _ (hlaw.value field)
    rintro t (ht | ht)
    · exact h t ht
    · exact .inl ht
  intro x y hxy
  have hselect := List.map_congr_left fun p hp => hvalue p.2.field
    (selected_kept names hsound hextract hextracted p hp) hxy
  have hgroups := List.map_congr_left fun field hf =>
    hvalue field (hnames.groups field hf) hxy
  have hargs := List.map_congr_left fun call hc => hvalue call.column
    (call_kept names hsound hextract call hc) hxy
  rw [Database.read, Database.read, hselect, hgroups, hargs]

theorem passes_dependsOn (hsound : Sound (parts e)) (hextract : ExtractOf names e query)
    (hfilter : FilterOf e filter) (hlaw : db.Lawful query) :
    DependsOn (db.passes query filter) (kept query filter) := by
  intro x y hxy
  have hsql : query.selection.whereSql.all (fun sql => db.on sql x) =
      query.selection.whereSql.all fun sql => db.on sql y := by
    cases hwhere : query.selection.whereSql with
    | none => rfl
    | some sql =>
      apply hlaw.on sql
      rintro t (ht | ht)
      · have hmem : sql ∈ e.selection.whereSql.toList := by
          rw [← hextract.selection, hwhere]
          exact List.mem_singleton_self sql
        have hfrom : t ∈ sources e := hsound.whereSql sql hmem t ht
        rw [← sources_eq names hextract] at hfrom
        exact hxy t (.inl hfrom)
      · exact hxy t (.inl ht)
  have htruth : (filter.all fun plan =>
        truthOf (db.conditions x) plan == .yes) =
      filter.all fun plan => truthOf (db.conditions y) plan == .yes := by
    cases hplan : filter with
    | none => rfl
    | some plan =>
      have hcolumns := filter_kept names hsound hextract hfilter
      rw [hplan] at hcolumns hxy
      have hsame : truthOf (db.conditions x) plan =
          truthOf (db.conditions y) plan :=
        truth_dependsOn _ hlaw (fun t ht => .inl ht) plan
          (fun c hc => hcolumns c (by simpa using hc)) hxy
      simp only [Option.all_some, hsame]
  rw [Database.passes, Database.passes, hsql, htruth]

/-- The joins that are left find the same rows under the names that are kept. -/
theorem joined_alike (hsound : Sound (parts e)) (hextract : ExtractOf names e query)
    (hfilter : FilterOf e filter) (hinner : InnerNeeded query filter)
    (hnames : NamesKept query filter) (hlaw : db.Lawful query) (hunique : db.Constrained e) :
    Alike (kept query filter) (db.joined query) (db.joined (without query filter)) := by
  apply run_filter db.step query.selection.joins _ _ _ _ _ (Alike.refl _)
  · intro j hj hkeep
    have hkept : joinKey query j.kind = false ∨ j.table.name ∈ neededTables query filter := by
      simpa using hkeep
    apply DependsOn.mono _ (hlaw.on j.on)
    rintro t (ht | ht)
    · exact on_kept names hsound hextract hfilter hnames.expiration j hj hkept t ht
    · exact .inl ht
  · intro j hj hdrop
    have hnot : joinKey query j.kind = true ∧ j.table.name ∉ neededTables query filter := by
      simpa using hdrop
    obtain ⟨hkind, hname⟩ := dropped names hsound hextract hinner j hj hnot.1 hnot.2
    refine ⟨beq_iff_eq.mpr hkind, hname, ?_⟩
    exact hunique j (hextract.selection ▸ hj) hkind

/-- Without left joins that it does not need, a query has the same rows. -/
theorem result_without [DecidableEq Val] (hsound : Sound (parts e))
    (hextract : ExtractOf names e query) (hfilter : FilterOf e filter)
    (hextracted : (query.call.isEmpty && query.projectedFields.isEmpty) = false)
    (hinner : InnerNeeded query filter) (hnames : NamesKept query filter)
    (hlaw : db.Lawful query) (hunique : db.Constrained e) :
    db.result (without query filter) filter = db.result query filter := by
  have hjoined := joined_alike names hsound hextract hfilter hinner hnames hlaw hunique
  have hpassing := filter_alike _ (passes_dependsOn names hsound hextract hfilter hlaw) _ _ hjoined
  have hrows := map_alike _
    (read_dependsOn names hsound hextract hextracted hnames hlaw) _ _ hpassing
  rw [Database.result, Database.result, hrows]
  rfl

/-- Nothing passes a contradictory filter. -/
theorem result_contradictory [DecidableEq Val] (query : QueryRec V)
    (hfilter : Contradictory filter) (hcall : query.call.isEmpty = true) :
    db.result query filter = [] := by
  have hrows : (db.joined query).filter (db.passes query filter) = [] := by
    apply List.filter_eq_nil_iff.mpr
    intro env _
    rw [Database.passes, hfilter, Bool.and_false]
    exact Bool.false_ne_true
  rw [Database.result, hrows]
  simp [hcall]

/-! ## Inner joins that are not needed -/

/-- One row in each table but one, in which all conditions are as given. -/
def emptyAt (table : Table) (holds : Plan V → Truth) : Database V Unit Unit where
  rows t := if t = table then [] else [()]
  factRows _ := [()]
  on _ _ := true
  value _ _ := ()
  holds plan _ := holds plan
  callValue _ _ := ()

theorem emptyAt_lawful (table : Table) (holds : Plan V → Truth) (query : QueryRec V) :
    (emptyAt table holds).Lawful query :=
  ⟨fun _ _ _ _ => rfl, fun _ _ _ _ => rfl, fun _ _ _ _ => rfl⟩

theorem emptyAt_constrained (table : Table) (holds : Plan V → Truth) (query : QueryRec V) :
    (emptyAt table holds).Constrained query := by
  intro j _ _ env
  apply Nat.le_trans (List.length_filter_le _ _)
  change (if j.table = table then [] else [()]).length ≤ 1
  split <;> simp

/-- One row is selected, and joined to one of each table. -/
theorem length_joined_emptyAt (table : Table) (holds : Plan V → Truth) (query : QueryRec V)
    (hsource : table.name ∉ sources query)
    (hjoins : ∀ j ∈ query.selection.joins, j.table ≠ table) :
    ((emptyAt table holds).joined query).length = 1 := by
  rw [Database.joined, length_run]
  · cases hselection : query.selection.source with
    | factNamed name => rfl
    | tables items =>
      have hitems : table.name ∉ items.map Table.name := by
        rw [sources, hselection] at hsource
        exact hsource
      have hfold (envs : List (String → Option Unit)) :
          (items.foldl (fun envs t => envs.flatMap fun env =>
            ((emptyAt table holds).rows t).map fun r => Function.update env t.name (some r))
              envs).length = envs.length := by
        clear hselection
        induction items generalizing envs with
        | nil => rfl
        | cons t items ih =>
          rw [List.map_cons, List.mem_cons, not_or] at hitems
          have hrows : (emptyAt table holds).rows t = [()] := by
            apply if_neg
            rintro rfl
            exact hitems.1 rfl
          rw [List.foldl_cons, ih hitems.2, hrows, List.length_flatMap]
          simp
      exact hfold _
  · intro s hs env
    obtain ⟨j, hj, rfl⟩ := List.mem_map.mp hs
    have hrows : ((emptyAt table holds).step j).rows = [()] := if_neg (hjoins j hj)
    have hmatching : ((emptyAt table holds).step j).matching env = [()] := by
      rw [Step.matching, hrows]
      rfl
    rw [Step.extend, hmatching]
    simp

/-- Without an inner join with a table without rows a query may have a row. -/
theorem inner_needed (hsound : Sound (parts e)) (hextract : ExtractOf names e query)
    (holds : Plan V → Truth)
    (hpasses : (filter.all fun plan => truthOf holds plan == .yes) = true)
    (hsame : ∀ table : Table, ((emptyAt table holds).result (without query filter) filter).Perm
      ((emptyAt table holds).result query filter)) : InnerNeeded query filter := by
  intro j hj hkind hcall
  by_contra hneeded
  have hj' : j ∈ e.selection.joins := hextract.selection ▸ hj
  have hnone : (emptyAt j.table holds).joined query = [] := by
    apply run_eq_nil _ _ (List.mem_map_of_mem hj)
    · change (j.kind == .leftJoin) = false
      rw [hkind]
      rfl
    · exact if_pos rfl
  have hone : ((emptyAt j.table holds).joined (without query filter)).length = 1 := by
    apply length_joined_emptyAt
    · have hapart : j.table.name ∉ sources e := hsound.apart j hj'
      rw [← sources_eq names hextract] at hapart
      exact hapart
    · intro j' hleft hsame
      have hleft' : j' ∈ query.selection.joins ∧
          (joinKey query j'.kind = false ∨ j'.table.name ∈ neededTables query filter) := by
        simpa [without] using hleft
      obtain ⟨hmem, hkey | hin⟩ := hleft'
      · have hmem' : j' ∈ e.selection.joins := hextract.selection ▸ hmem
        have hnotInner := (hsound.inner j' hmem').1
        cases hkind' : j'.kind with
        | leftJoin =>
          rw [hkind'] at hkey
          cases hkey
        | innerJoin => exact hnotInner hkind'
        | join =>
          rw [hkind', joinKey, hcall] at hkey
          cases hkey
      · rw [hsame] at hin
        exact hneeded hin
  have hall (env : String → Option Unit) :
      (emptyAt j.table holds).passes (without query filter) filter env = true := by
    rw [Database.passes, Bool.and_eq_true]
    refine ⟨?_, hpasses⟩
    cases (without query filter).selection.whereSql <;> rfl
  have hempty : (emptyAt j.table holds).result query filter = [] := by
    rw [Database.result, hnone]
    simp [hcall]
  have hrow : (emptyAt j.table holds).result (without query filter) filter ≠ [] := by
    obtain ⟨env, henv⟩ := List.length_eq_one_iff.mp hone
    have hcall' : (without query filter).call.isEmpty = true := hcall
    rw [Database.result, henv, List.filter_cons_of_pos (hall env)]
    cases hgroups : (without query filter).groupBy.isEmpty <;> simp [hcall']
  apply hrow
  have hperm := hsame j.table
  rw [hempty] at hperm
  exact hperm.eq_nil

end Rows

/-! ## Dropping -/

/-- The rows of a query are the same without the joins that are dropped. -/
def SameRows (e query query' : QueryRec V) (filter : Option (Plan V)) : Prop :=
  ∀ (R Val : Type) [DecidableEq Val] (db : Database V R Val), db.Lawful query →
    db.Constrained e → Option.Rel List.Perm (db.answer query' filter) (db.answer query filter)

/-- Fields without paths. -/
def noNames (field : String) : List String := [field]

/-- `["extract", ["timestamp"]]` of the inventory. -/
def timestamps : QueryRec Unit :=
  { inventoryQuery Unit with
    projectedFields := [("timestamp", column .timestamp (keyword "fs" "timestamp") ["fs"])] }

/-- `["extract", ["package_name"]]` of the packages of all nodes. -/
def packageNames : QueryRec Unit :=
  { packageInventoryQuery Unit with
    projectedFields := [("package_name", column .string (keyword "p" "name") ["p"])] }

end OpenVoxDB.JoinAgreement
