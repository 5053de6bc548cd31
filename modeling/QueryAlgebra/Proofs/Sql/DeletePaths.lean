import QueryAlgebra.Proofs.Sql.Filter
import QueryAlgebra.Proofs.Sql.Relational
import QueryAlgebra.Proofs.Table.Reporting
import QueryAlgebra.Sql.Table

/-!
# Two ways to the keys of a delete

A delete of a selection needs the primary keys of its rows. When its plan leaves nothing to the rows
it asks for the keys, whatever the queue projects. When an operation is left it runs that on the rows,
and picks the keys out of the answer. So a filter that every row passes, put at the end of a queue,
may change the way to the keys.

Both ways lead to the same keys where the rows that are picked from show them (`ShowsKeys`): then the
same rows are deleted and the same count is reported (`delete_paths_agree`). Where a projection hides
the keys, the second way finds none (`delete_hidden`).

* `SameOn`: two computations do the same on a state. What goes on after them in one way does the same,
  and so does what reports them.
* `planFrom_keepAll`: the filter at the end of a queue is one at the end of its plan.
* `decodeFields_shown`: decoding and projecting a row can change places.
-/

namespace QueryAlgebra

/-! ## 1. Computations that do the same -/

section Same

variable {σ α β : Type}

/-- An outcome that refuses: an error that is no fault of the storage. -/
def Refuses (outcome : Except Error α) : Prop :=
  ∃ e, outcome = .error e ∧ e.isStorageFault = false

/-- **Two computations do the same on a state:** they leave one state, and they answer the same or
    both refuse. -/
structure SameOn (x y : Stateful σ α) (s : σ) : Prop where
  state : (Stateful.on x s).2 = (Stateful.on y s).2
  outcome : (Stateful.on x s).1 = (Stateful.on y s).1 ∨
    Refuses (Stateful.on x s).1 ∧ Refuses (Stateful.on y s).1

namespace SameOn

variable {x y : Stateful σ α} {f g : α → Stateful σ β} {s : σ}

theorem of_eq (h : Stateful.on x s = Stateful.on y s) : SameOn x y s :=
  ⟨congrArg Prod.snd h, Or.inl (congrArg Prod.fst h)⟩

theorem of_refuses (hstate : (Stateful.on x s).2 = (Stateful.on y s).2)
    (hx : Refuses (Stateful.on x s).1) (hy : Refuses (Stateful.on y s).1) : SameOn x y s :=
  ⟨hstate, Or.inr ⟨hx, hy⟩⟩

/-- What goes on in one way after computations that do the same does the same. -/
theorem bind (h : SameOn x y s) (f : α → Stateful σ β) : SameOn (x >>= f) (y >>= f) s := by
  obtain ⟨hstate, heq | ⟨⟨e, he, hfault⟩, e', he', hfault'⟩⟩ := h
  · have hon : Stateful.on x s = Stateful.on y s := Prod.ext heq hstate
    exact of_eq (by rw [Stateful.on_bind, Stateful.on_bind, hon])
  · refine of_refuses ?_ ⟨e, ?_, hfault⟩ ⟨e', ?_, hfault'⟩
    · rw [Stateful.on_bind_of_error he, Stateful.on_bind_of_error he']
      exact hstate
    · rw [Stateful.on_bind_of_error he]
    · rw [Stateful.on_bind_of_error he']

/-- What does the same after an answer does the same from the beginning. -/
theorem after (h : ∀ a, (Stateful.on x s).1 = .ok a → SameOn (f a) (g a) (Stateful.on x s).2) :
    SameOn (x >>= f) (x >>= g) s := by
  cases hx : (Stateful.on x s).1 with
  | error e => exact of_eq (by rw [Stateful.on_bind_of_error hx, Stateful.on_bind_of_error hx])
  | ok a =>
    obtain ⟨hstate, houtcome⟩ := h a hx
    refine ⟨?_, ?_⟩ <;> rw [Stateful.on_bind_of_ok hx, Stateful.on_bind_of_ok hx]
    · exact hstate
    · exact houtcome

/-- Writes that do the same do the same when they are reported: what refuses is no fault of the
    storage, and is raised. -/
theorem report {x y : Stateful σ WriteResult} (h : SameOn x y s) :
    SameOn (WriteResult.report x) (WriteResult.report y) s := by
  obtain ⟨hstate, heq | ⟨⟨e, he, hfault⟩, e', he', hfault'⟩⟩ := h
  · have hon : Stateful.on x s = Stateful.on y s := Prod.ext heq hstate
    exact of_eq (by rw [WriteResult.on_report, WriteResult.on_report, hon])
  · have hx := WriteResult.on_report_of_error he hfault
    have hy := WriteResult.on_report_of_error he' hfault'
    refine of_refuses ?_ ⟨e, by rw [hx], hfault⟩ ⟨e', by rw [hy], hfault'⟩
    rw [hx, hy]
    exact hstate

end SameOn

end Same

namespace Sql

/-! ## 2. A filter that every row passes -/

section Plans

variable {M : Type → Type}

/-- The filter that every row passes. -/
def keepAll : Entry M := .filter (.constant (.bool true))

/-- The plan with one more filter that every row passes. The filter tests nothing when it is taken
    into the query. It is left to the rows when an operation before it is, and when the rows have
    been cut or projected. -/
def StreamPlan.keepingAll (plan : StreamPlan M) : StreamPlan M :=
  if plan.kill || !plan.rest.isEmpty || plan.limit.isSome || plan.columns.isSome then
    plan.leave (plan.rest ++ [keepAll])
  else plan

variable [Monad M] [MonadExceptOf Error M]

theorem compilePredicate_constant (scope : Scope) (v : Value) :
    compilePredicate scope (.constant v) = (pure (.const v.truthy) : M Condition) := by
  rw [compilePredicate, Predicate.operand, compileCondition]

variable [LawfulMonad M]

theorem evaluate_keepAll (scope : Scope) (items : List Value) :
    evaluate scope (.array items) [keepAll] = (pure (.array items) : M Value) := by
  simp [keepAll, evaluate, Entry.apply, Value.asArray, Predicate.holds, Value.truthy, ofOutcome,
    filterM_pure_true]

/-- A projection is taken into a plan after it has been checked and its names are known. -/
theorem exists_plucked (plan : StreamPlan M) (names : M (List String)) :
    ∃ checked : M (List String),
      plan.plucked names = (do return { plan with columns := some (← checked) }) := by
  unfold StreamPlan.plucked
  have hlast : ∃ checked : M (List String),
      (do return { plan with columns := some (← names) } : M (StreamPlan M))
        = (do return { plan with columns := some (← checked) }) := ⟨names, rfl⟩
  have hcheck : ∀ (e : Error) {x : M (StreamPlan M)},
      (∃ checked : M (List String), x = (do return { plan with columns := some (← checked) })) →
        ∃ checked : M (List String), ((throw e : M PUnit) >>= fun _ => x)
          = (do return { plan with columns := some (← checked) }) := by
    rintro e _ ⟨checked, rfl⟩
    exact ⟨(throw e : M PUnit) >>= fun _ => checked, (bind_assoc _ _ _).symm⟩
  split_ifs
  · exact hcheck _ (hcheck _ hlast)
  · exact hcheck _ hlast
  · exact hcheck _ hlast
  · exact hlast

/-- **A filter at the end of a queue that every row passes is one at the end of its plan,** by
    induction along the operations that are taken into the query: up to there the plan leaves nothing
    to the rows. -/
theorem planFrom_keepAll (scope : Scope) {plan : StreamPlan M} (hkill : plan.kill = false)
    (hrest : plan.rest = []) (entries : List (Entry M)) :
    planFrom scope plan (entries ++ [keepAll])
      = (do return (← planFrom scope plan entries).keepingAll) := by
  -- Where the first operation is left the queue ends for the plan, and the filter is left behind it.
  have hleft : ∀ (plan : StreamPlan M) (entry : Entry M) (rest : List (Entry M)),
      (pure (plan.leave (entry :: (rest ++ [keepAll]))) : M (StreamPlan M))
        = (do return (← pure (plan.leave (entry :: rest))).keepingAll) := by
    intro plan entry rest
    simp [StreamPlan.keepingAll, StreamPlan.leave]
  induction entries generalizing plan with
  | nil =>
    rw [List.nil_append, keepAll, planFrom, planFrom, pure_bind, StreamPlan.keepingAll, hkill, hrest]
    simp only [compilePredicate_constant, pure_bind]
    by_cases hlate : (plan.limit.isSome || plan.columns.isSome) = true
    · rw [if_pos hlate]
      simp [hlate, keepAll]
    · rw [if_neg hlate]
      simp [hlate, Value.truthy, planFrom]
  | cons entry rest ih =>
    rw [List.cons_append]
    cases entry with
    | filter predicate =>
      rw [planFrom, planFrom]
      split
      · exact hleft plan _ rest
      · rw [bind_assoc]
        refine bind_congr fun condition => ?_
        cases condition with
        | const b =>
          cases b with
          | true => exact ih hkill hrest
          | false => simp [StreamPlan.keepingAll, StreamPlan.leave]
        | formula f => exact @ih { plan with filters := plan.filters ++ [f] } hkill hrest
    | distinct =>
      rw [planFrom, planFrom]
      have hnext := @ih { plan with distinct := true } hkill hrest
      split_ifs
      · exact hleft plan _ rest
      · rw [bind_assoc, hnext]
      · exact hnext
    | pluck names =>
      rw [planFrom, planFrom]
      obtain ⟨checked, hchecked⟩ := exists_plucked plan (fieldNames scope "pluck" names)
      rw [hchecked]
      simp only [bind_assoc, pure_bind]
      refine bind_congr fun ns => ?_
      exact @ih { plan with columns := some ns } hkill hrest
    | limit n =>
      rw [planFrom, planFrom]
      simp only [bind_assoc]
      refine bind_congr fun v => bind_congr fun d => ?_
      exact @ih (plan.limited d.toWord) hkill hrest
    | _ => exact hleft plan _ rest

theorem planStream_keepAll (scope : Scope) (entries : List (Entry M)) :
    planStream scope (entries ++ [keepAll])
      = (do return (← planStream scope entries).keepingAll) :=
  planFrom_keepAll scope rfl rfl entries

end Plans

/-! ## 3. Decoding what is shown -/

section Decoding

variable {schema : Schema} {row doc : Fields}

/-- Decodes what is stored in a column. -/
def decodeColumn (schema : Schema) (name : String) (stored : Value) : Except Error Value :=
  match schema.field? name with
  | some f => SchemaField.decode f.type stored
  | none => .ok stored

theorem decodeColumn_null (schema : Schema) (name : String) :
    decodeColumn schema name .null = .ok .null := by
  unfold decodeColumn
  split <;> rfl

theorem decodeFields_cons (schema : Schema) (name : String) (stored : Value) (rest : Fields) :
    schema.decodeFields ((name, stored) :: rest)
      = (do return (name, ← decodeColumn schema name stored) :: (← schema.decodeFields rest)) := by
  rw [Schema.decodeFields, decodeColumn]
  cases schema.field? name <;> rfl

/-- A column of a row that is decoded is decoded. -/
theorem decodeColumn_columnOf (h : schema.decodeFields row = .ok doc) (name : String) :
    decodeColumn schema name (columnOf row name) = .ok (columnOf doc name) := by
  induction row generalizing doc with
  | nil =>
    cases h
    exact decodeColumn_null schema name
  | cons f row ih =>
    obtain ⟨n, stored⟩ := f
    rw [decodeFields_cons] at h
    obtain ⟨v, hv, h⟩ := bind_eq_ok.mp h
    obtain ⟨rest, hrest, h⟩ := bind_eq_ok.mp h
    cases h
    unfold columnOf Fields.get?
    split
    · next heq => exact heq ▸ hv
    · exact ih hrest

/-- **What is shown of a row is decoded as the row is.** -/
theorem decodeFields_shown (h : schema.decodeFields row = .ok doc)
    (columns : Option (List String)) :
    schema.decodeFields (Server.shown columns row) = .ok (Server.shown columns doc) := by
  cases columns with
  | none => exact h
  | some names =>
    unfold Server.shown
    dsimp only
    induction names.eraseDups with
    | nil => rfl
    | cons name names ih =>
      rw [List.map_cons, decodeFields_cons, decodeColumn_columnOf h, ih]
      rfl

end Decoding

/-! ## 4. The keys that are selected -/

section Keys

/-- The keys of rows are their columns, without those that are null. -/
theorem keyValues_eq (rows : List Fields) (primaryKey : String) :
    keyValues rows primaryKey
      = (rows.map fun row => columnOf row primaryKey).filter fun k => !k.isNull := by
  induction rows with
  | nil => rfl
  | cons row rows ih =>
    rw [keyValues] at ih ⊢
    rw [List.map_cons, List.filterMap_cons, columnOf]
    cases row.get? primaryKey with
    | none => exact ih
    | some key =>
      rw [List.filter_cons, List.filter_cons, ih]
      rfl

theorem keysOfAnswer_objects (primaryKey : String) (docs : List Fields) :
    Table.keysOfAnswer primaryKey (.array (docs.map .object)) = .ok (keyValues docs primaryKey) := by
  rw [Table.keysOfAnswer, List.filterMap_map]
  congr 2
  exact List.filterMap_some

namespace Table

variable {M : Type → Type} [Monad M] [MonadExceptOf Error M]

/-- The primary keys of the rows that a plan selects: they are asked for when nothing is left to the
    rows, and picked out of the answer when something is. -/
def selectedKeys (t : Table M) (scope : Scope) (plan : StreamPlan M) (primaryKey : String)
    (test : Option RowTest) : M (List Value) :=
  if plan.rest.isEmpty then do
    let rows ← t.connection.all (plan.selectKeys t.name primaryKey test)
    pure (keyValues rows primaryKey)
  else do
    let rows ← t.fetch plan primaryKey test
    ofOutcome (keysOfAnswer primaryKey (← plan.finish scope rows))

/-- Deletes the rows that a plan selects. -/
def deletePlanned (t : Table M) (scope : Scope) (keys : Option (KeyScope M))
    (plan : StreamPlan M) : M WriteResult := do
  match ← t.target scope keys plan with
  | none => return {}
  | some (primaryKey, test) => WriteResult.report do
    t.deleteKeys primaryKey (← t.selectedKeys scope plan primaryKey test)

/-- A delete plans its queue, and deletes the rows that the plan selects. -/
theorem deleteStream_eq [LawfulMonad M] (t : Table M) (scope : Scope) (keys : Option (KeyScope M))
    (entries : List (Entry M)) :
    t.deleteStream scope keys entries
      = (do t.deletePlanned scope keys (← planStream scope entries)) := by
  unfold deleteStream deletePlanned selectedKeys
  refine bind_congr fun plan => bind_congr fun target => ?_
  rcases target with _ | ⟨primaryKey, test⟩
  · rfl
  · dsimp only
    congr 1
    split <;> simp only [bind_assoc]

/-- A plan with the further filter aims at the same rows. -/
theorem target_keepingAll (t : Table M) (scope : Scope) (keys : Option (KeyScope M))
    (plan : StreamPlan M) : t.target scope keys plan.keepingAll = t.target scope keys plan := by
  unfold StreamPlan.keepingAll
  split <;> rfl

theorem target_of_kill (t : Table M) (scope : Scope) (keys : Option (KeyScope M))
    {plan : StreamPlan M} (h : plan.kill = true) : t.target scope keys plan = pure none := by
  rw [target, if_pos h]

end Table

/-- **The rows that a plan selects show their keys:** the key is among the columns, no two rows have
    the same key when repeated rows are dropped, and decoding a row leaves its key as it is. -/
structure Server.ShowsKeys (server : Server) {M : Type → Type} (schema : Schema)
    (plan : StreamPlan M) (tests : List RowTest) (primaryKey : String) (rows : List Fields) :
    Prop where
  shown : ∀ names, plan.columns = some names → primaryKey ∈ names
  apart : plan.distinct = true → (server.passing rows tests).Pairwise fun a b =>
    server.same (columnOf b primaryKey) (columnOf a primaryKey) = false
  legible : ∀ row ∈ server.passing rows tests,
    ∃ doc, schema.decodeFields row = .ok doc ∧ columnOf doc primaryKey = columnOf row primaryKey

/-- The keys of the rows that a plan selects, without those that are null. -/
def Server.keysOf (server : Server) {M : Type → Type} (plan : StreamPlan M) (tests : List RowTest)
    (primaryKey : String) (rows : List Fields) : List Value :=
  ((firstRows plan.limit (server.passing rows tests)).map (columnOf · primaryKey)).filter
    fun k => !k.isNull

section Selected

variable {σ : Type} {server : Server} {rows : σ → List Fields} {t : Table (Stateful σ)}
  {scope : Scope} {plan : StreamPlan (Stateful σ)} {primaryKey : String} {test : Option RowTest}
  {s : σ}

/-- What is left to the rows may be followed by the further filter: what was no list of rows is
    refused by the one or the other. -/
theorem sameOn_selectedKeys_left (hrest : plan.rest ≠ []) :
    SameOn (t.selectedKeys scope plan primaryKey test)
      (t.selectedKeys scope (plan.leave (plan.rest ++ [keepAll])) primaryKey test) s := by
  have hleft : ¬plan.rest.isEmpty = true := fun h => hrest (List.isEmpty_iff.mp h)
  have hlonger : ¬(plan.leave (plan.rest ++ [keepAll])).rest.isEmpty = true := by
    simp [StreamPlan.leave]
  unfold Table.selectedKeys
  rw [if_neg hleft, if_neg hlonger]
  refine SameOn.after fun items _ => ?_
  rw [StreamPlan.finish, StreamPlan.finish, StreamPlan.leave, evaluate_append, bind_assoc]
  refine SameOn.after fun v _ => ?_
  cases v with
  | array items =>
    rw [evaluate_keepAll, pure_bind]
    exact SameOn.of_eq rfl
  | _ => exact SameOn.of_refuses rfl ⟨_, rfl, rfl⟩ ⟨_, rfl, rfl⟩

variable (hserver : server.Answers rows t.connection)

include hserver

/-- A plan that leaves nothing asks for the keys of the rows that it selects. -/
theorem on_selectedKeys (hrest : plan.rest = []) :
    Stateful.on (t.selectedKeys scope plan primaryKey test) s
      = (.ok (server.keysOf plan (plan.tests t.name primaryKey test) primaryKey (rows s)), s) := by
  have hanswer := hserver false (some [primaryKey]) t.name (plan.tests t.name primaryKey test)
    plan.limit s
  have hshown : ∀ names, some [primaryKey] = some names → primaryKey ∈ names := by
    rintro _ ⟨⟩
    exact List.mem_singleton_self primaryKey
  rw [Server.select_distinct hshown fun h => absurd h Bool.false_ne_true] at hanswer
  have hempty : plan.rest.isEmpty = true := by rw [hrest]; rfl
  unfold Table.selectedKeys
  rw [if_pos hempty, StreamPlan.selectKeys, Stateful.on_bind, hanswer]
  dsimp only
  rw [Stateful.on_pure, keyValues_eq, List.map_map, Server.keysOf]
  simp only [Function.comp_def, Server.columnOf_shown hshown]

theorem on_fetch :
    Stateful.on (t.fetch plan primaryKey test) s
      = ((server.select (rows s) plan.distinct plan.columns (plan.tests t.name primaryKey test)
          plan.limit).mapM t.schema.decodeRow, s) := by
  rw [Table.fetch, StreamPlan.select, Stateful.on_bind, hserver]
  exact Stateful.on_ofOutcome _ s

/-- A plan that leaves the further filter picks the keys out of the rows that it shows. -/
theorem on_pickedKeys {docs : List Fields}
    (hdocs : (server.select (rows s) plan.distinct plan.columns
      (plan.tests t.name primaryKey test) plan.limit).mapM t.schema.decodeFields = .ok docs) :
    Stateful.on (t.selectedKeys scope (plan.leave [keepAll]) primaryKey test) s
      = (.ok ((docs.map fun doc => columnOf doc primaryKey).filter fun k => !k.isNull), s) := by
  have hfetch : Stateful.on (t.fetch (plan.leave [keepAll]) primaryKey test) s
      = (.ok (docs.map .object), s) := by
    have hrows := mapM_eq_ok_map (g := t.schema.decodeRow) (k := Value.object)
      (fun row doc hdoc => bind_eq_ok.mpr ⟨doc, hdoc, rfl⟩) hdocs
    rw [← hrows]
    exact on_fetch hserver
  have hleft : ¬(plan.leave [keepAll]).rest.isEmpty = true := by simp [StreamPlan.leave]
  unfold Table.selectedKeys
  rw [if_neg hleft, Stateful.on_bind, hfetch]
  dsimp only
  rw [StreamPlan.finish, StreamPlan.leave, evaluate_keepAll, pure_bind, Stateful.on_ofOutcome,
    keysOfAnswer_objects, keyValues_eq]

/-- **The keys that are picked out of the rows are those that are asked for,** when the rows show
    them. -/
theorem on_pickedKeys_of_shows
    (hshows : server.ShowsKeys t.schema plan (plan.tests t.name primaryKey test) primaryKey
      (rows s)) :
    Stateful.on (t.selectedKeys scope (plan.leave [keepAll]) primaryKey test) s
      = (.ok (server.keysOf plan (plan.tests t.name primaryKey test) primaryKey (rows s)), s) := by
  have hlegible : ∀ row ∈ Server.firstRows plan.limit (server.passing (rows s)
      (plan.tests t.name primaryKey test)), ∃ doc, t.schema.decodeFields row = .ok doc ∧
        columnOf doc primaryKey = columnOf row primaryKey :=
    fun row hrow => hshows.legible row (Server.mem_of_mem_firstRows hrow)
  obtain ⟨docs, hdocs, hkeys⟩ := exists_mapM_eq_ok_with hlegible
  have hdecoded : (server.select (rows s) plan.distinct plan.columns
      (plan.tests t.name primaryKey test) plan.limit).mapM t.schema.decodeFields
        = .ok (docs.map (Server.shown plan.columns)) := by
    rw [Server.select_distinct hshows.shown hshows.apart, List.mapM_map]
    exact mapM_eq_ok_map (fun row doc hdoc => decodeFields_shown hdoc plan.columns) hdocs
  rw [on_pickedKeys hserver hdecoded, List.map_map, Server.keysOf]
  simp only [Function.comp_def, Server.columnOf_shown hshows.shown, hkeys]

/-- **Where a projection hides the keys, none is picked out of the rows,** whatever they are. -/
theorem on_pickedKeys_of_hidden {names : List String} (hcolumns : plan.columns = some names)
    (hhidden : primaryKey ∉ names)
    (hlegible : ∀ row ∈ server.passing (rows s) (plan.tests t.name primaryKey test),
      ∃ doc, t.schema.decodeFields row = .ok doc) :
    Stateful.on (t.selectedKeys scope (plan.leave [keepAll]) primaryKey test) s = (.ok [], s) := by
  have hshown : ∀ doc, columnOf (Server.shown plan.columns doc) primaryKey = .null := by
    intro doc
    refine Server.columnOf_eq_null fun hmem => hhidden ?_
    rw [hcolumns, Fields.names, Server.shown, List.map_map] at hmem
    obtain ⟨name, hname, rfl⟩ := List.mem_map.mp hmem
    exact List.mem_eraseDups.mp hname
  have hdecodes : ∀ row ∈ server.select (rows s) plan.distinct plan.columns
      (plan.tests t.name primaryKey test) plan.limit,
        ∃ doc, t.schema.decodeFields row = .ok doc ∧ columnOf doc primaryKey = .null := by
    intro row hrow
    obtain ⟨stored, hstored, rfl⟩ := Server.exists_of_mem_select hrow
    obtain ⟨doc, hdoc⟩ := hlegible stored hstored
    exact ⟨_, decodeFields_shown hdoc plan.columns, hshown doc⟩
  obtain ⟨docs, hdocs, hkeys⟩ := exists_mapM_eq_ok_with hdecodes
  rw [on_pickedKeys hserver hdocs, hkeys, List.filter_eq_nil_iff.mpr]
  rintro key hkey
  obtain ⟨-, -, rfl⟩ := List.mem_map.mp hkey
  exact Bool.false_ne_true

end Selected

end Keys

/-! ## 5. Deletes -/

section Deletes

variable {σ : Type}

/-- **Where a delete asks for rows:** the plan of its queue, the primary key and the test of the keys
    that it aims at, and the state that it has come to. -/
structure Table.Asks (t : Table (Stateful σ)) (scope : Scope) (keys : Option (KeyScope (Stateful σ)))
    (entries : List (Entry (Stateful σ))) (s : σ) (plan : StreamPlan (Stateful σ))
    (primaryKey : String) (test : Option RowTest) (s' : σ) : Prop where
  planned : (Stateful.on (planStream scope entries) s).1 = .ok plan
  aimed : Stateful.on (t.target scope keys plan) (Stateful.on (planStream scope entries) s).2
    = (.ok (some (primaryKey, test)), s')

/-- Whether a further filter makes a delete pick the keys out of rows that it would ask for else:
    nothing is left to the rows, and they are cut or projected. -/
def StreamPlan.Switches {M : Type → Type} (plan : StreamPlan M) : Prop :=
  plan.rest = [] ∧ (plan.limit.isSome || plan.columns.isSome) = true

theorem keepingAll_cases {M : Type → Type} (plan : StreamPlan M) (h : plan.kill = false) :
    plan.rest ≠ [] ∧ plan.keepingAll = plan.leave (plan.rest ++ [keepAll]) ∨
      plan.Switches ∧ plan.keepingAll = plan.leave [keepAll] ∨ plan.keepingAll = plan := by
  unfold StreamPlan.keepingAll
  by_cases hrest : plan.rest = []
  · by_cases hlate : (plan.limit.isSome || plan.columns.isSome) = true
    · exact Or.inr (Or.inl ⟨⟨hrest, hlate⟩, by simp [h, hrest, hlate]⟩)
    · exact Or.inr (Or.inr (by simp [h, hrest, hlate]))
  · exact Or.inl ⟨hrest, by simp [hrest]⟩

theorem kill_of_asks {t : Table (Stateful σ)} {scope : Scope}
    {keys : Option (KeyScope (Stateful σ))} {entries : List (Entry (Stateful σ))} {s s' : σ}
    {plan : StreamPlan (Stateful σ)} {primaryKey : String} {test : Option RowTest}
    (h : t.Asks scope keys entries s plan primaryKey test s') : plan.kill = false := by
  cases hkill : plan.kill with
  | false => rfl
  | true =>
    have haimed := h.aimed
    rw [Table.target_of_kill t scope keys hkill] at haimed
    cases haimed

section Agreement

variable {server : Server} {rows : σ → List Fields} {t : Table (Stateful σ)}
  (hserver : server.Answers rows t.connection) {scope : Scope}
  {keys : Option (KeyScope (Stateful σ))} {entries : List (Entry (Stateful σ))} {s : σ}

include hserver

/-- **Where a projection hides the keys, a further filter that every row passes keeps every row,** and
    the delete reports that it has deleted none. -/
theorem delete_hidden {plan : StreamPlan (Stateful σ)} {primaryKey : String}
    {test : Option RowTest} {s' : σ} {names : List String}
    (hasks : t.Asks scope keys entries s plan primaryKey test s') (hrest : plan.rest = [])
    (hcolumns : plan.columns = some names) (hhidden : primaryKey ∉ names)
    (hlegible : ∀ row ∈ server.passing (rows s') (plan.tests t.name primaryKey test),
      ∃ doc, t.schema.decodeFields row = .ok doc) :
    Stateful.on (t.deleteStream scope keys (entries ++ [.filter (.constant (.bool true))])) s
      = (.ok {}, s') := by
  have hleft : plan.keepingAll = plan.leave [keepAll] := by
    simp [StreamPlan.keepingAll, hrest, hcolumns]
  have hpicked : Stateful.on (t.selectedKeys scope (plan.leave [keepAll]) primaryKey test) s'
      = (.ok [], s') := on_pickedKeys_of_hidden hserver hcolumns hhidden hlegible
  rw [← keepAll, Table.deleteStream_eq, planStream_keepAll, bind_assoc,
    Stateful.on_bind_of_ok hasks.planned, pure_bind, Table.deletePlanned, Table.target_keepingAll,
    Stateful.on_bind, hasks.aimed]
  dsimp only
  rw [WriteResult.on_report, hleft, Stateful.on_bind, hpicked]
  rfl

/-- **The two ways to the keys agree.** For every table on a relational connection, all its rows or
    those with given keys, and every queue: a filter at the end that every row passes changes neither
    what is deleted nor what is answered, if the rows show their keys wherever the filter changes the
    way to them. Two queues that are both refused may be refused for different causes. -/
theorem delete_paths_agree
    (hshows : ∀ plan primaryKey test s', t.Asks scope keys entries s plan primaryKey test s' →
      plan.Switches → server.ShowsKeys t.schema plan (plan.tests t.name primaryKey test) primaryKey
        (rows s')) :
    SameOn (t.deleteStream scope keys entries)
      (t.deleteStream scope keys (entries ++ [.filter (.constant (.bool true))])) s := by
  rw [← keepAll, Table.deleteStream_eq, Table.deleteStream_eq, planStream_keepAll, bind_assoc]
  simp only [pure_bind]
  refine SameOn.after fun plan hplan => ?_
  rw [Table.deletePlanned, Table.deletePlanned, Table.target_keepingAll]
  refine SameOn.after fun target htarget => ?_
  rcases target with _ | ⟨primaryKey, test⟩
  · exact SameOn.of_eq rfl
  refine SameOn.report (SameOn.bind ?_ _)
  have hasks : t.Asks scope keys entries s plan primaryKey test _ :=
    ⟨hplan, Prod.ext htarget rfl⟩
  rcases keepingAll_cases plan (kill_of_asks hasks) with
    ⟨hrest, hlonger⟩ | ⟨hswitches, hleft⟩ | hsame
  · rw [hlonger]
    exact sameOn_selectedKeys_left hrest
  · rw [hleft]
    refine SameOn.of_eq ?_
    rw [on_selectedKeys hserver hswitches.1,
      on_pickedKeys_of_shows hserver (hshows _ _ _ _ hasks hswitches)]
  · rw [hsame]
    exact SameOn.of_eq rfl

end Agreement

/-! ### A projection with the keys, and one without -/

/-- The server that compares as values are compared. -/
def plainServer : Server := { plainEngine with given := fun _ _ => none }

/-- A table of fruits. -/
def fruits : Table (Stateful (List Fields)) :=
  ⟨plainServer.connection "id", {}, "fruits", [⟨"id", .string, true⟩, ⟨"name", .string, false⟩]⟩

/-- Three fruits of two names. -/
def threeFruits : List Fields :=
  [[("id", .string "a"), ("name", .string "fig")], [("id", .string "b"), ("name", .string "fig")],
    [("id", .string "c"), ("name", .string "kiwi")]]

/-- The queue `pluck("id").distinct().limit(2)`. -/
def twoIds : List (Entry (Stateful (List Fields))) :=
  [.pluck [.literal (.string "id")], .distinct, .limit (.literal (.count 2))]

/-- A projection that names the key: two fruits are deleted in both ways. -/
theorem fruits_delete_agrees :
    plainServer.Answers id fruits.connection ∧
      (∀ plan primaryKey test s', fruits.Asks [] none twoIds threeFruits plan primaryKey test s' →
        plan.Switches → plainServer.ShowsKeys fruits.schema plan
          (plan.tests fruits.name primaryKey test) primaryKey (id s')) ∧
      Stateful.on (fruits.deleteStream [] none twoIds) threeFruits
        = (.ok { deleted := 2 }, threeFruits.drop 2) ∧
      SameOn (fruits.deleteStream [] none twoIds)
        (fruits.deleteStream [] none (twoIds ++ [.filter (.constant (.bool true))]))
        threeFruits := by
  have hserver : plainServer.Answers id fruits.connection := plainServer.answers_connection "id"
  have htwo : (Number.ofCount 2).toDouble.toWord = 2 := by decide +kernel
  have hplan : Stateful.on (planStream [] twoIds) threeFruits
      = (.ok { columns := some ["id"], distinct := true, limit := some 2 }, threeFruits) := by
    rw [← htwo]
    rfl
  have hrun : Stateful.on (fruits.deleteStream [] none twoIds) threeFruits
      = (.ok { deleted := 2 }, threeFruits.drop 2) := by
    rw [Table.deleteStream_eq, Stateful.on_bind, hplan]
    rfl
  have hshows : ∀ plan primaryKey test s',
      fruits.Asks [] none twoIds threeFruits plan primaryKey test s' → plan.Switches →
        plainServer.ShowsKeys fruits.schema plan (plan.tests fruits.name primaryKey test) primaryKey
          (id s') := by
    rintro plan primaryKey test s' ⟨hplanned, haimed⟩ -
    rw [hplan] at hplanned haimed
    obtain rfl := Except.ok.inj hplanned
    cases haimed
    refine ⟨?_, fun _ => ?_, fun row hrow => ?_⟩
    · rintro _ ⟨⟩
      exact List.mem_singleton_self "id"
    · decide
    · have hmem : row ∈ threeFruits := List.mem_of_mem_filter hrow
      simp only [threeFruits, List.mem_cons, List.not_mem_nil, or_false] at hmem
      rcases hmem with rfl | rfl | rfl <;> exact ⟨_, rfl, rfl⟩
  exact ⟨hserver, hshows, hrun, delete_paths_agree hserver hshows⟩

/-- A projection that does not name the key: the three fruits are deleted, and with the further filter
    none is. -/
theorem hidden_key_keeps_fruits :
    Stateful.on (fruits.deleteStream [] none [.pluck [.literal (.string "name")]]) threeFruits
        = (.ok { deleted := 3 }, []) ∧
      Stateful.on (fruits.deleteStream [] none
          ([.pluck [.literal (.string "name")]] ++ [.filter (.constant (.bool true))])) threeFruits
        = (.ok {}, threeFruits) :=
  ⟨rfl, rfl⟩

/-- A table of things, with keys of any type. -/
def anyKeys : Table (Stateful (List Fields)) :=
  ⟨plainServer.connection "id", {}, "things", [⟨"id", .any, true⟩]⟩

-- Decoding may change a key: a text that reads as a number is picked out as that number, and the
-- delete counts a row that it does not meet.
example :
    Stateful.on (anyKeys.deleteStream [] none
          ([.pluck [.literal (.string "id")]] ++ [.filter (.constant (.bool true))]))
        [[("id", .string "5")]] = (.ok { deleted := 1 }, [[("id", .string "5")]]) := rfl

end Deletes

end Sql

end QueryAlgebra
