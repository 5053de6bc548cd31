import QueryAlgebra.Proofs.Value.Documents

/-!
# What is read does not nest too deeply

The reader opens no more arrays and objects than its limit allows, so a value that has been read nests
no deeper (`depth_le_of_read`), and neither does a document that is made of such ones.

* `Build.holds_of_read`: reading is one run of the builder; what every token keeps, holds of what has been
  built at the end.
* `Build.Fits`: whatever the builder holds nests below the limit at the place where it stands. Every
  token keeps this.
* `depth_merge_le`, `depth_keyed_le`: writing a document over another, or putting it under a key, makes
  none that nests deeper than its parts.
-/

namespace QueryAlgebra

namespace Json

/-! ## 1. Tokens -/

/-- A value that is one word has no items and no fields. -/
def Token.Flat : Token → Prop
  | .scalar v => v.depth = 0
  | _ => True

theorem flat_wordToken {read : List Char} {t : Token} (h : wordToken read = some t) : t.Flat := by
  unfold wordToken at h
  split at h <;> cases h <;> exact Value.depth.eq_def _

theorem flat_numeralToken {read : List Char} {t : Token} (h : numeralToken read = some t) :
    t.Flat := by
  unfold numeralToken at h
  obtain ⟨n, -, h⟩ := Option.bind_eq_some_iff.mp h
  split at h
  · obtain ⟨k, -, rfl⟩ := Option.map_eq_some_iff.mp h
    exact Value.depth.eq_def _
  · cases h

theorem flat_scanGround {c : Char} {next : Scan} {tokens : List Token}
    (h : scanGround c = some (next, tokens)) : ∀ t ∈ tokens, t.Flat := by
  unfold scanGround at h
  split at h
  all_goals first
    | (cases h; simp [Token.Flat])
    | (split_ifs at h <;> cases h <;> simp)

theorem flat_endToken {token : Option Token} {c : Char} {next : Scan} {tokens : List Token}
    (htoken : ∀ t, token = some t → t.Flat) (h : endToken token c = some (next, tokens)) :
    ∀ t ∈ tokens, t.Flat := by
  unfold endToken at h
  obtain ⟨t, ht, h⟩ := Option.bind_eq_some_iff.mp h
  obtain ⟨⟨next', tokens'⟩, hground, h⟩ := Option.bind_eq_some_iff.mp h
  cases h
  exact List.forall_mem_cons.mpr ⟨htoken t ht, flat_scanGround hground⟩

/-- **The values among the tokens of a text are flat.** -/
theorem flat_step {scan next : Scan} {c : Char} {tokens : List Token}
    (h : scan.step c = some (next, tokens)) : ∀ t ∈ tokens, t.Flat := by
  cases scan with
  | ground => exact flat_scanGround h
  | word read =>
    rw [Scan.step] at h
    split at h
    · cases h
      simp
    · exact flat_endToken (fun _ => flat_wordToken) h
  | numeral read =>
    rw [Scan.step] at h
    split at h
    · cases h
      simp
    · exact flat_endToken (fun _ => flat_numeralToken) h
  | text read =>
    rw [Scan.step] at h
    split_ifs at h <;> cases h <;> simp [Token.Flat]
  | escape read =>
    rw [Scan.step] at h
    split at h
    · cases h
      simp
    · obtain ⟨d, -, h⟩ := Option.map_eq_some_iff.mp h
      cases h
      simp
  | unit read high digits value =>
    rw [Scan.step] at h
    obtain ⟨d, -, h⟩ := Option.bind_eq_some_iff.mp h
    split at h
    · obtain ⟨s, -, h⟩ := Option.map_eq_some_iff.mp h
      cases h
      simp
    · cases h
      simp
  | pair read high | pairEscape read high =>
    rw [Scan.step] at h
    split at h <;> cases h
    simp

theorem flat_finish {scan : Scan} {tokens : List Token} (h : scan.finish = some tokens) :
    ∀ t ∈ tokens, t.Flat := by
  unfold Scan.finish at h
  split at h
  · cases h
    simp
  · obtain ⟨t, ht, rfl⟩ := Option.map_eq_some_iff.mp h
    exact fun _ hm => List.mem_singleton.mp hm ▸ flat_wordToken ht
  · obtain ⟨t, ht, rfl⟩ := Option.map_eq_some_iff.mp h
    exact fun _ hm => List.mem_singleton.mp hm ▸ flat_numeralToken ht
  · cases h

/-! ## 2. Building -/

/-- What an open array or object holds nests below the limit, with so many others around it. -/
def Frame.Fits (limit around : Nat) : Frame → Prop
  | .items before => ∀ v ∈ before, around + v.depth < limit
  | .fields before _ => ∀ f ∈ before, around + f.2.depth < limit

/-- What the open arrays and objects hold nests below the limit. -/
def StackFits (limit : Nat) : List Frame → Prop
  | [] => True
  | frame :: stack => stack.length < limit ∧ frame.Fits limit stack.length ∧ StackFits limit stack

/-- What has been read last nests below the limit, with so many open around it. -/
def Expect.Fits (limit around : Nat) : Expect → Prop
  | .value | .firstItem => True
  | .firstName => around < limit
  | .name before | .colon before _ => around < limit ∧ ∀ f ∈ before, around + f.2.depth < limit
  | .next v => around + v.depth ≤ limit

/-- **Whatever the builder holds nests below the limit** at the place where it stands. -/
structure Build.Fits (limit : Nat) (b : Build) : Prop where
  stack : StackFits limit b.stack
  expect : b.expect.Fits limit b.stack.length

section Steps

variable {limit : Nat}

theorem StackFits.length_le {stack : List Frame} (h : StackFits limit stack) :
    stack.length ≤ limit := by
  cases stack with
  | nil => exact Nat.zero_le _
  | cons frame stack => exact h.1

theorem fits_array {items : List Value} {around : Nat} (hopen : around < limit)
    (h : ∀ v ∈ items, around + v.depth < limit) : around + (Value.array items).depth ≤ limit := by
  have hitems : Value.depthItems items ≤ limit - around - 1 :=
    Value.depthItems_le_iff.mpr (fun v hv => by have := h v hv; omega)
  rw [Value.depth]
  omega

theorem fits_object {fields : Fields} {around : Nat} (hopen : around < limit)
    (h : ∀ f ∈ fields, around + f.2.depth < limit) :
    around + (Value.object fields).depth ≤ limit := by
  have hfields : Value.depthFields fields ≤ limit - around - 1 :=
    Value.depthFields_le_iff.mpr (fun f hf => by have := h f hf; omega)
  rw [Value.depth]
  omega

theorem fits_set {fields : Fields} {name : String} {v : Value} {around : Nat}
    (h : ∀ f ∈ fields, around + f.2.depth < limit) (hv : around + v.depth < limit) :
    ∀ f ∈ fields.set name v, around + f.2.depth < limit := by
  intro f hf
  rcases Fields.mem_set hf with heq | hmem
  · rw [heq]
    exact hv
  · exact h f hmem

theorem Build.Fits.stepValue {b b' : Build} {t : Token} (h : b.Fits limit) (ht : t.Flat)
    (hstep : b.stepValue limit t = some b') : b'.Fits limit := by
  have hheight := h.stack.length_le
  unfold Build.stepValue at hstep
  split at hstep
  · next v =>
    cases hstep
    have hflat : v.depth = 0 := ht
    exact ⟨h.stack, by simpa [Expect.Fits, hflat] using hheight⟩
  · next s =>
    cases hstep
    exact ⟨h.stack, by simpa [Expect.Fits, Value.depth] using hheight⟩
  · split at hstep <;> cases hstep
    next hopen =>
      have hroom : b.stack.length < limit := of_decide_eq_true hopen
      exact ⟨⟨hroom, fun v hv => absurd hv List.not_mem_nil, h.stack⟩, trivial⟩
  · split at hstep <;> cases hstep
    next hopen =>
      have hroom : b.stack.length < limit := of_decide_eq_true hopen
      exact ⟨h.stack, hroom⟩
  · cases hstep

/-- What has been read last fits into what is open around it. -/
theorem Expect.Fits.below {v : Value} {around : Nat} (h : (Expect.next v).Fits limit (around + 1)) :
    around + v.depth < limit := by
  have hnext : around + 1 + v.depth ≤ limit := h
  omega

/-- **A token keeps what is held below the limit.** -/
theorem Build.Fits.step {b b' : Build} {t : Token} (h : b.Fits limit) (ht : t.Flat)
    (hstep : b.step limit t = some b') : b'.Fits limit := by
  obtain ⟨stack, expect⟩ := b
  obtain ⟨hstack, hexpect⟩ := h
  cases expect with
  | value => exact Build.Fits.stepValue ⟨hstack, hexpect⟩ ht hstep
  | firstItem =>
    cases t with
    | closeArray =>
      obtain _ | ⟨⟨before⟩ | ⟨before, name⟩, stack⟩ := stack <;> cases hstep
      exact ⟨hstack.2.2, fits_array hstack.1 (fun v hv => absurd hv List.not_mem_nil)⟩
    | _ => exact Build.Fits.stepValue ⟨hstack, hexpect⟩ ht hstep
  | firstName =>
    cases t with
    | closeObject =>
      cases hstep
      exact ⟨hstack, fits_object hexpect (fun f hf => absurd hf List.not_mem_nil)⟩
    | string name =>
      cases hstep
      exact ⟨hstack, hexpect, fun f hf => absurd hf List.not_mem_nil⟩
    | _ => cases hstep
  | name before =>
    cases t with
    | string name =>
      cases hstep
      exact ⟨hstack, hexpect⟩
    | _ => cases hstep
  | colon before name =>
    cases t with
    | colon =>
      cases hstep
      exact ⟨⟨hexpect.1, hexpect.2, hstack⟩, trivial⟩
    | _ => cases hstep
  | next v =>
    -- A comma and an end look at the innermost of what is open, and take the value into it.
    cases t with
    | comma =>
      obtain _ | ⟨⟨before⟩ | ⟨before, name⟩, stack⟩ := stack <;> cases hstep
      · have hitems : ∀ w ∈ v :: before, stack.length + w.depth < limit :=
          List.forall_mem_cons.mpr ⟨hexpect.below, hstack.2.1⟩
        exact ⟨⟨hstack.1, hitems, hstack.2.2⟩, trivial⟩
      · exact ⟨hstack.2.2, hstack.1, fits_set hstack.2.1 hexpect.below⟩
    | closeArray =>
      obtain _ | ⟨⟨before⟩ | ⟨before, name⟩, stack⟩ := stack <;> cases hstep
      refine ⟨hstack.2.2, fits_array hstack.1 (fun w hw => ?_)⟩
      rcases List.mem_cons.mp (List.mem_reverse.mp hw) with rfl | hw
      · exact hexpect.below
      · exact hstack.2.1 w hw
    | closeObject =>
      obtain _ | ⟨⟨before⟩ | ⟨before, name⟩, stack⟩ := stack <;> cases hstep
      exact ⟨hstack.2.2, fits_object hstack.1 (fits_set hstack.2.1 hexpect.below)⟩
    | _ => cases hstep

end Steps

section Reading

variable {P : Build → Prop} {limit : Nat}

theorem Build.holds_tokens
    (hstep : ∀ b t b', P b → t.Flat → b.step limit t = some b' → P b') {tokens : List Token}
    (ht : ∀ t ∈ tokens, t.Flat) {b b' : Build} (h : P b)
    (hsteps : tokens.foldlM (Build.step limit) b = some b') : P b' := by
  induction tokens generalizing b with
  | nil =>
    cases hsteps
    exact h
  | cons t tokens ih =>
    obtain ⟨hhead, hrest⟩ := List.forall_mem_cons.mp ht
    rw [List.foldlM_cons] at hsteps
    obtain ⟨next, hnext, hsteps⟩ := Option.bind_eq_some_iff.mp hsteps
    exact ih hrest (hstep b t next h hhead hnext) hsteps

theorem Build.holds_run
    (hstep : ∀ b t b', P b → t.Flat → b.step limit t = some b' → P b') {cs : List Char}
    {r r' : Read} (h : P r.build) (hrun : r.run limit cs = some r') : P r'.build := by
  induction cs generalizing r with
  | nil =>
    cases hrun
    exact h
  | cons c cs ih =>
    rw [run_cons] at hrun
    obtain ⟨next, hnext, hrun⟩ := Option.bind_eq_some_iff.mp hrun
    unfold Read.step at hnext
    obtain ⟨⟨scan, tokens⟩, hscan, hnext⟩ := Option.bind_eq_some_iff.mp hnext
    obtain ⟨build, hbuild, hnext⟩ := Option.bind_eq_some_iff.mp hnext
    cases hnext
    exact ih (Build.holds_tokens hstep (flat_step hscan) h hbuild) hrun

/-- **What every token keeps, holds when a value has been read.** -/
theorem Build.holds_of_read (hstart : P .start)
    (hstep : ∀ b t b', P b → t.Flat → b.step depthLimit t = some b' → P b') {text : String}
    {v : Value} (h : read text = some v) : P ⟨[], .next v⟩ := by
  unfold read readWithin at h
  obtain ⟨r, hrun, h⟩ := Option.bind_eq_some_iff.mp h
  obtain ⟨tokens, htokens, h⟩ := Option.bind_eq_some_iff.mp h
  obtain ⟨⟨stack, expect⟩, hb, hfinish⟩ := Option.bind_eq_some_iff.mp h
  have hread : P r.build := Build.holds_run hstep (r := ⟨.ground, .start⟩) hstart hrun
  have hbuilt := Build.holds_tokens hstep (flat_finish htokens) hread hb
  unfold Build.finish at hfinish
  split at hfinish <;> cases hfinish
  next hstack hexpect =>
    cases hstack
    cases hexpect
    exact hbuilt

end Reading

/-- **What is read does not nest deeper than the limit.** -/
theorem depth_le_of_read {text : String} {v : Value} (h : read text = some v) :
    v.depth ≤ depthLimit := by
  have hfits := Build.holds_of_read (P := Build.Fits depthLimit) ⟨trivial, trivial⟩
    (fun _ _ _ hb ht hstep => hb.step ht hstep) h
  have hnext : 0 + v.depth ≤ depthLimit := hfits.expect
  omega

end Json

/-! ## 3. Documents -/

namespace Value

variable {fields changes : Fields} {d : Nat}

theorem depth_object_le_iff : (object fields).depth ≤ d + 1 ↔ ∀ f ∈ fields, f.2.depth ≤ d := by
  rw [depth, Nat.succ_le_succ_iff, depthFields_le_iff]

theorem depth_merge_le (h : (object fields).depth ≤ d + 1) (h' : (object changes).depth ≤ d + 1) :
    (object (fields.merge changes)).depth ≤ d + 1 := by
  rw [depth_object_le_iff] at *
  unfold Fields.merge
  induction changes generalizing fields with
  | nil => exact h
  | cons f changes ih =>
    obtain ⟨hf, hrest⟩ := List.forall_mem_cons.mp h'
    refine ih (fun g hg => ?_) hrest
    rcases Fields.mem_set hg with heq | hmem
    · rw [heq]
      exact hf
    · exact h g hmem

theorem depth_keyed_le (h : (object fields).depth ≤ d + 1) (primaryKey : String) {key : Value}
    (hkey : key.depth ≤ d) : (object (fields.keyed primaryKey key)).depth ≤ d + 1 := by
  rw [depth_object_le_iff] at *
  refine List.forall_mem_cons.mpr ⟨hkey, fun f hf => h f ?_⟩
  exact List.mem_of_mem_filter hf

end Value

end QueryAlgebra
