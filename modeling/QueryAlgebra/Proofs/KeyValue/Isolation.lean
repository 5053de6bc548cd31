import QueryAlgebra.Proofs.KeyValue.Footprint
import QueryAlgebra.Proofs.KeyValue.Reliable
import QueryAlgebra.Proofs.KeyValue.Runs

/-!
# Tables do not touch each other

An operation on a table writes at the keys of the table and at the table list, whichever calls fail
(`Confined`), and a read of a table looks at the keys of the table (`LooksAt`). No key is one of two
tables, so an operation on one table leaves every read of another as it was (`tables_isolated`).

Names and values may be anything that the operations accept: a separator in a value stands behind
the name of the table.
-/

namespace QueryAlgebra

namespace KeyValue

/-! ## 1. Writing at the keys of a table -/

/-- The content is as before but at the keys of a table and at the table list. -/
structure KeptOutside (t : String) (m m' : Content) : Prop where
  sorted : OrderedMap.Sorted m'
  read : ∀ key, ¬Owns t key → key ≠ Database.tablesKey → m'.read key = m.read key

theorem KeptOutside.refl {t : String} {m : Content} (hs : OrderedMap.Sorted m) :
    KeptOutside t m m := ⟨hs, fun _ _ _ => rfl⟩

theorem KeptOutside.trans {t : String} {m₁ m₂ m₃ : Content} (h : KeptOutside t m₁ m₂)
    (h' : KeptOutside t m₂ m₃) : KeptOutside t m₁ m₃ :=
  ⟨h'.sorted, fun key howns hlist => (h'.read key howns hlist).trans (h.read key howns hlist)⟩

/-- **A computation writes only at the keys of a table and at the table list,** on every session,
    whichever calls fail; and what it answers has a property. -/
def Confined (t : String) {α : Type} (Q : α → Prop) (x : Session α) : Prop :=
  ∀ s, OrderedMap.Sorted s.content →
    KeptOutside t s.content (x.on s).2.content ∧ ∀ a, (x.on s).1 = .ok a → Q a

section Confined

variable {t : String}

theorem closed_confined (t : String) : Closed (M := Session) (fun _ => Confined t) where
  pure h s hs := ⟨.refl hs, fun _ ha => Except.ok.inj ha ▸ h⟩
  throw e s hs := ⟨.refl hs, fun _ ha => by cases ha⟩
  bind {_ _ _ _ x f} hx hf s hs := by
    obtain ⟨hkept, hQ⟩ := hx s hs
    rw [Session.on_bind]
    rcases hon : x.on s with ⟨e | a, s'⟩ <;> rw [hon] at hkept hQ
    · exact ⟨hkept, fun _ ha => by cases ha⟩
    · obtain ⟨hkept', hR⟩ := hf a (hQ a rfl) s' hkept.sorted
      exact ⟨hkept.trans hkept', hR⟩

/-- A computation that does not change the content is confined. -/
theorem confined_of_content {α : Type} {x : Session α} (h : ∀ s, (x.on s).2.content = s.content) :
    Anyway (fun _ => Confined t) x := by
  intro s hs
  rw [h s]
  exact ⟨.refl hs, fun _ _ => trivial⟩

theorem confined_batch {writes : List Write}
    (h : ∀ w ∈ writes, Owns t w.key ∨ w.key = Database.tablesKey) :
    Anyway (fun _ => Confined t) (Memory.store.batch writes) := by
  intro s hs
  refine ⟨?_, fun _ _ => trivial⟩
  have hcontent : ((Memory.store.batch writes).on s).2.content = s.content.applyAll writes ∨
      ((Memory.store.batch writes).on s).2.content = s.content :=
    (session_reliable.batch writes s).2.imp And.right And.right
  rcases hcontent with hcontent | hcontent <;> rw [hcontent]
  · refine ⟨Content.sorted_applyAll hs writes, fun key howns hlist => ?_⟩
    refine Content.read_applyAll_of_not_mem hs fun w hw heq => ?_
    rcases h w hw with hw | hw
    · exact howns (heq ▸ hw)
    · exact hlist (heq.symm.trans hw)
  · exact .refl hs

theorem confined_rescue {α : Type} {Q : α → Prop} {x : Session α} {f : Error → Session α}
    (hx : Confined t Q x) (hf : ∀ e, Confined t Q (f e)) : Confined t Q (tryCatch x f) := by
  intro s hs
  obtain ⟨hkept, hQ⟩ := hx s hs
  rw [Session.on_tryCatch]
  rcases hon : x.on s with ⟨e | a, s'⟩ <;> rw [hon] at hkept hQ
  · obtain ⟨hkept', hQ'⟩ := hf e s' hkept.sorted
    exact ⟨hkept.trans hkept', hQ'⟩
  · exact ⟨hkept, hQ⟩

theorem scan_answer {start : String} {s : Memory} {entries : List (String × String)}
    (h : ((Memory.store.scan start).on s).1 = .ok entries) :
    entries = s.content.startingWith start := by
  have hcharge : (Memory.charge .scan).on s = _ := on_charge_any .scan s
  change ((Memory.charge .scan >>= fun _ => do return (← get).content.startingWith start).on s).1
    = .ok entries at h
  rw [Session.on_bind, hcharge] at h
  cases hfault : s.fault .scan (s.calls.count .scan) with
  | some message =>
    rw [hfault] at h
    cases h
  | none =>
    rw [hfault] at h
    exact (Except.ok.inj h).symm

/-- What a scan answers begins as it was asked. -/
theorem scan_prefix {start : String} {s : Memory} {entries : List (String × String)}
    (h : ((Memory.store.scan start).on s).1 = .ok entries) :
    ∀ e ∈ entries, start.toList <+: e.1.toList := by
  rw [scan_answer h]
  exact fun e he => Content.prefix_of_mem_startingWith he

/-- Reading a table writes nothing, so it is confined to any. -/
theorem readsAt_confined (t t' : String) : ReadsAt (fun _ => Confined t) Memory.store t' where
  closed := closed_confined t
  get key _ := confined_of_content fun s => (session_reliable.get key s).1.1
  scan start _ s hs := by
    have hcontent : ((Memory.store.scan start).on s).2.content = s.content :=
      (session_reliable.scan start s).1.1
    rw [hcontent]
    exact ⟨.refl hs, fun _ ha => scan_prefix ha⟩

/-- **The calls of a session at the keys of a table are confined to it.** -/
theorem writesAt_confined (t : String) : WritesAt (fun _ => Confined t) Memory.store t where
  toReadsAt := readsAt_confined t t
  tables := confined_of_content fun s => (session_reliable.get _ s).1.1
  freshId := confined_of_content fun s => (session_reliable.freshId s).1.1
  batch _ h := confined_batch h
  rescue := confined_rescue

/-- A handle on any table is an operand that is confined, when its tasks are. -/
theorem confined_handle {handle : Handle (Table Session) Session}
    (hstore : handle.table.store = Memory.store)
    (htarget : Target.Tasks (Anyway fun _ => Confined t) handle.target)
    (hentries : EntriesTasks (Anyway fun _ => Confined t) handle.entries) :
    handle.toOperand.Tasks (Anyway fun _ => Confined t) :=
  ReadsAt.handle (hstore ▸ readsAt_confined t handle.table.name) htarget hentries

end Confined

/-! ## 2. Looking at the keys of a table -/

/-- Sessions without faults that hold the same for a table. -/
structure Alike (t : String) (s s' : Memory) : Prop where
  left : Healthy s
  right : Healthy s'
  leftSorted : OrderedMap.Sorted s.content
  rightSorted : OrderedMap.Sorted s'.content
  read : ∀ key, Owns t key → s'.content.read key = s.content.read key

/-- **A computation looks only at the keys of a table:** on sessions that hold the same for it the
    answers are the same; and what it answers has a property. -/
def LooksAt (t : String) {α : Type} (Q : α → Prop) (x : Session α) : Prop :=
  ∀ s s', Alike t s s' → (x.on s').1 = (x.on s).1 ∧ Alike t (x.on s).2 (x.on s').2 ∧
    ∀ a, (x.on s).1 = .ok a → Q a

section LooksAt

variable {t : String}

theorem Alike.kept {s s' r r' : Memory} (h : Alike t s s') (hs : Kept s r) (hs' : Kept s' r') :
    Alike t r r' :=
  ⟨hs.healthy, hs'.healthy, hs.content ▸ h.leftSorted, hs'.content ▸ h.rightSorted, fun key howns => by
    rw [hs.content, hs'.content]
    exact h.read key howns⟩

theorem closed_looksAt (t : String) : Closed (M := Session) (fun _ => LooksAt t) where
  pure h s s' halike := ⟨rfl, halike, fun _ ha => Except.ok.inj ha ▸ h⟩
  throw e s s' halike := ⟨rfl, halike, fun _ ha => by cases ha⟩
  bind {_ _ _ _ x f} hx hf s s' halike := by
    obtain ⟨hanswer, hnext, hQ⟩ := hx s s' halike
    rw [Session.on_bind, Session.on_bind]
    rcases hon : x.on s with ⟨e | a, r⟩ <;> rcases hon' : x.on s' with ⟨e' | a', r'⟩ <;>
      rw [hon, hon'] at hanswer hnext <;> rw [hon] at hQ
    · cases hanswer
      exact ⟨rfl, hnext, fun _ ha => by cases ha⟩
    · cases hanswer
    · cases hanswer
    · cases hanswer
      exact hf a (hQ a rfl) r r' hnext

/-- **The reads of a session at the keys of a table look at nothing else.** -/
theorem readsAt_looksAt (t : String) : ReadsAt (fun _ => LooksAt t) Memory.store t where
  closed := closed_looksAt t
  get key howns s s' h := by
    rw [on_get h.left, on_get h.right]
    refine ⟨congrArg Except.ok (h.read key howns), ?_, fun _ _ => trivial⟩
    exact h.kept (kept_call h.left .get) (kept_call h.right .get)
  scan start howns s s' h := by
    rw [on_scan h.left, on_scan h.right]
    refine ⟨congrArg Except.ok ?_, ?_, fun entries hentries => ?_⟩
    · exact Content.startingWith_congr h.leftSorted h.rightSorted fun key hprefix =>
        h.read key (howns.extend hprefix)
    · exact h.kept (kept_call h.left .scan) (kept_call h.right .scan)
    · obtain rfl := Except.ok.inj hentries
      exact fun e he => ((Content.mem_startingWith h.leftSorted).mp he).2

/-- A handle on the table is an operand that looks at nothing else, when its tasks do not. -/
theorem looksAt_handle {handle : Handle (Table Session) Session}
    (hstore : handle.table.store = Memory.store) (hname : handle.table.name = t)
    (htarget : Target.Tasks (Anyway fun _ => LooksAt t) handle.target)
    (hentries : EntriesTasks (Anyway fun _ => LooksAt t) handle.entries) :
    handle.toOperand.Tasks (Anyway fun _ => LooksAt t) :=
  ReadsAt.handle (hstore ▸ hname ▸ readsAt_looksAt t) htarget hentries

end LooksAt

/-! ## 3. Operations -/

/-- The table that an operation is about. -/
def Op.table : Op → String
  | .create t _ | .createIndex t _ | .dropIndex t _ | .insert t _ _ | .update t _ _ _
  | .replace t _ _ _ | .delete t _ _ | .deleteSelection t _ _ _ => t

/-- No task in the operands of an operation writes outside of its table. -/
def Op.Bounded : Op → Prop
  | .create _ _ | .createIndex _ _ | .dropIndex _ _ | .insert _ _ _ => True
  | .update t _ key _ | .replace t _ key _ | .delete t _ key =>
    key.Tasks (Anyway fun _ => Confined t)
  | .deleteSelection t _ keys entries =>
    (∀ k ∈ keys, OperandsTasks (Anyway fun _ => Confined t) k.keys) ∧
      EntriesTasks (Anyway fun _ => Confined t) entries

/-- What is done to a table: an operation, or dropping it. -/
inductive Action where
  /-- Runs an operation. -/
  | run (op : Op)
  /-- Drops a table. -/
  | drop (table : String)

namespace Action

/-- The table that an action is about. -/
def table : Action → String
  | .run op => op.table
  | .drop t => t

/-- No task in the operands of an action writes outside of its table. -/
def Bounded : Action → Prop
  | .run op => op.Bounded
  | .drop _ => True

/-- Does what is to be done; the answer is not looked at. -/
def perform (config : Config) : Action → Session Unit
  | .run op => op.run config
  | .drop t => Database.drop ⟨Memory.store, config⟩ t

/-- **An action writes only at the keys of its table and at the table list.** -/
theorem confined (config : Config) {action : Action} (h : action.Bounded) :
    Anyway (fun _ => Confined action.table) (action.perform config) := by
  have hdone : ∀ {t : String} {α : Type} {x : Session α}, Anyway (fun _ => Confined t) x →
      Anyway (fun _ => Confined t) (do let _ ← x) := fun hx =>
    (closed_confined _).andThen hx fun _ => (closed_confined _).known _
  have hdb : ∀ t, WritesAt (fun _ => Confined t) (Database.mk Memory.store config).store t :=
    writesAt_confined
  have ht : ∀ t, EditsAt (fun _ => Confined t) (tableOf config t).store (tableOf config t).name True :=
    fun t => (writesAt_confined t).edits (t := tableOf config t)
  cases action with
  | drop t => exact (hdb t).drop
  | run op =>
    cases op with
    | create t schema => exact hdone ((hdb t).create schema)
    | createIndex t field => exact (ht t).createIndex field
    | dropIndex t field => exact (ht t).dropIndex field
    | insert t docs choice => exact hdone ((ht t).insert docs choice)
    | update t scope key patch => exact hdone ((ht t).update h patch)
    | replace t scope key doc => exact hdone ((ht t).replace h doc)
    | delete t scope key => exact hdone ((ht t).deleteRow h)
    | deleteSelection t scope keys entries => exact hdone ((ht t).deleteStream h.1 h.2)

end Action

/-- What a store holds after actions, one after another, on whatever sessions: any calls may fail in
    them. -/
inductive Reached (config : Config) : Content → Prop
  | empty : Reached config []
  | step {s : Memory} (h : Reached config s.content) (action : Action) (haction : action.Bounded) :
    Reached config ((action.perform config).on s).2.content

theorem Reached.sorted {config : Config} {m : Content} (h : Reached config m) :
    OrderedMap.Sorted m := by
  induction h with
  | empty => exact List.Pairwise.nil
  | step _ action haction ih => exact (Action.confined config haction _ ih).1.sorted

theorem Reached.runAll {config : Config} {s : Memory} (h : Reached config s.content) {ops : List Op}
    (hops : ∀ op ∈ ops, op.Bounded) : Reached config (runAll config s ops).content := by
  unfold KeyValue.runAll
  induction ops generalizing s with
  | nil => exact h
  | cons op ops ih =>
    obtain ⟨hop, hrest⟩ := List.forall_mem_cons.mp hops
    exact ih (h.step (.run op) hop) hrest

/-! ## 4. Isolation -/

/-- A computation answers on the one content what it answers on the other, when no call fails. -/
def SameAnswers {α : Type} (x : Session α) (m m' : Content) : Prop :=
  ∀ s s', Healthy s → Healthy s' → s.content = m → s'.content = m' → (x.on s').1 = (x.on s).1

/-- **The reads of a table answer on the one content what they answer on the other.** A query may
    hold tasks if they look at nothing but the table. -/
structure SameReads (config : Config) (t : String) (m m' : Content) : Prop where
  scan : SameAnswers (tableOf config t).scan m m'
  row (scope : Scope) (key : Operand Session) (entries : List (Entry Session))
    (hkey : key.Tasks (Anyway fun _ => LooksAt t))
    (hentries : EntriesTasks (Anyway fun _ => LooksAt t) entries) :
    SameAnswers ((tableOf config t).readRow scope key entries) m m'
  rows (scope : Scope) (keys : Option (KeyScope Session)) (entries : List (Entry Session))
    (hkeys : ∀ k ∈ keys, OperandsTasks (Anyway fun _ => LooksAt t) k.keys)
    (hentries : EntriesTasks (Anyway fun _ => LooksAt t) entries) :
    SameAnswers ((tableOf config t).stream scope keys entries) m m'
  entry (field : String) (v : Value) : SameAnswers (lookup Memory.store t field v) m m'
  indexNames : SameAnswers (tableOf config t).indexNames m m'

theorem KeptOutside.sameReads (config : Config) {a b : String} (ha : Plain a) (hb : Plain b)
    (hab : a ≠ b) {m m' : Content} (hs : OrderedMap.Sorted m) (h : KeptOutside a m m') :
    SameReads config b m m' := by
  -- a key of the other table is none of this one, and it is not the table list
  have hread : ∀ key, Owns b key → m'.read key = m.read key := fun key howns =>
    h.read key (fun howns' => hab (howns'.unique ha hb howns))
      fun heq => not_owns_tablesKey hb (heq ▸ howns)
  have hsame : ∀ {α : Type} {x : Session α}, Anyway (fun _ => LooksAt b) x → SameAnswers x m m' := by
    rintro α x hx s s' hhealthy hhealthy' rfl rfl
    exact (hx s s' ⟨hhealthy, hhealthy', hs, h.sorted, hread⟩).1
  have hreads : ReadsAt (fun _ => LooksAt b) (tableOf config b).store (tableOf config b).name :=
    readsAt_looksAt b
  exact ⟨hsame hreads.scanned, fun _ _ _ hkey hentries => hsame (hreads.readRow hkey hentries),
    fun _ _ _ hkeys hentries => hsame (hreads.stream hkeys hentries),
    fun field v => hsame (hreads.lookup field v), hsame hreads.indexNames⟩

/-- **Tables are isolated:** an action on a table leaves every key as it was that is not one of the
    table, the table list apart, and every read of another table, whichever calls fail in it. -/
theorem tables_isolated (config : Config) {s : Memory} (hs : Reached config s.content) {a b : String}
    (ha : checkName "table" a = .ok ()) (hb : checkName "table" b = .ok ()) (hab : a ≠ b)
    {action : Action} (haction : action.Bounded) (htable : action.table = a) :
    let m' := ((action.perform config).on s).2.content
    (∀ key, ¬Owns a key → key ≠ Database.tablesKey → m'.read key = s.content.read key) ∧
      SameReads config b s.content m' := by
  subst htable
  obtain ⟨hkept, -⟩ := Action.confined config haction s hs.sorted
  exact ⟨hkept.read,
    hkept.sameReads config (plain_of_checkName ha) (plain_of_checkName hb) hab hs.sorted⟩

/-- Tables of which one has a name that the other's begins with, and a row that looks like one of the
    other's. -/
def neighbours : Memory :=
  runAll {} {} [.create "a" [⟨"id", .string, true⟩], .create "ab" [⟨"id", .string, true⟩],
    .insert "a" (.object [("id", .string "!ab!p!x")]) none,
    .insert "ab" (.object [("id", .string "x")]) none]

/-- Dropping the one leaves the other as it was, and so does a delete in the one by a key that is read
    from the other. Of the other the row is read, by a key that is read from it too, as it was. -/
theorem dropped_neighbour :
    let key := (fieldOf "ab" (.string "x") "id").toOperand
    let delete := Action.run (.delete "a" [] key)
    let m' := (((Action.drop "a").perform {}).on neighbours).2.content
    let m'' := ((delete.perform {}).on neighbours).2.content
    let rowsOf := fun t m => ((tableOf {} t).scan.on { content := m }).1.toOption.map List.length
    ((∀ key, ¬Owns "a" key → key ≠ Database.tablesKey → m'.read key = neighbours.content.read key) ∧
      SameReads {} "ab" neighbours.content m') ∧
    ((∀ key, ¬Owns "a" key → key ≠ Database.tablesKey → m''.read key = neighbours.content.read key) ∧
      SameReads {} "ab" neighbours.content m'') ∧
    SameAnswers ((tableOf {} "ab").readRow [] key []) neighbours.content m' ∧
    rowsOf "a" neighbours.content = some 1 ∧ rowsOf "a" m' = some 0 ∧ rowsOf "ab" m' = some 1 := by
  intro key delete m' m'' rowsOf
  have hreached : Reached {} neighbours.content :=
    Reached.runAll (s := {}) .empty (by simp [Op.Bounded])
  have haction : (Action.drop "a").Bounded := trivial
  have hconfined : delete.Bounded := confined_handle rfl trivial ⟨trivial, trivial⟩
  have hlooks : key.Tasks (Anyway fun _ => LooksAt "ab") :=
    looksAt_handle rfl rfl trivial ⟨trivial, trivial⟩
  have hdropped := tables_isolated {} hreached (a := "a") (b := "ab") rfl rfl (by decide) haction rfl
  have hdeleted :=
    tables_isolated {} hreached (a := "a") (b := "ab") rfl rfl (by decide) hconfined rfl
  exact ⟨hdropped, hdeleted, hdropped.2.row [] key [] hlooks trivial,
    by decide +kernel, by decide +kernel, by decide +kernel⟩

end KeyValue

end QueryAlgebra
