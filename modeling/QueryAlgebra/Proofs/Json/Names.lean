import QueryAlgebra.Proofs.Json.Nesting
import QueryAlgebra.Proofs.Value.Agreement

/-!
# What is read names no field twice

A field name that is repeated in a text takes the place of the one before, so every object of a value that
has been read has distinct field names (`proper_of_read`), however the text was written. Such values equal
themselves.

* `Build.Proper`: whatever the builder holds has distinct names. Every token keeps this.
-/

namespace QueryAlgebra

namespace Value

theorem proper_of_flat {v : Value} (h : v.depth = 0) : v.Proper := by
  cases v <;> simp_all [depth, Proper]

theorem proper_array {items : List Value} (h : ∀ v ∈ items, v.Proper) : (Value.array items).Proper := by
  rw [Proper]
  exact properItems_of_forall h

/-- Writing a field keeps the names distinct. -/
theorem proper_set {fields : Fields} {name : String} {v : Value} (h : (Value.object fields).Proper)
    (hv : v.Proper) : (Value.object (fields.set name v)).Proper := by
  rw [Proper] at h ⊢
  refine ⟨Fields.nodup_set h.1 name v, properFields_of_forall fun f hf => ?_⟩
  rcases Fields.mem_set hf with heq | hmem
  · rw [heq]
    exact hv
  · exact properFields_of_mem h.2 f hmem

end Value

namespace Json

/-- What an open array or object holds has distinct names. -/
def Frame.Proper : Frame → Prop
  | .items before => ∀ v ∈ before, v.Proper
  | .fields before _ => (Value.object before).Proper

/-- What has been read last has distinct names. -/
def Expect.Proper : Expect → Prop
  | .value | .firstItem | .firstName => True
  | .name before | .colon before _ => (Value.object before).Proper
  | .next v => v.Proper

/-- **Whatever the builder holds has distinct names.** -/
structure Build.Proper (b : Build) : Prop where
  stack : ∀ frame ∈ b.stack, frame.Proper
  expect : b.expect.Proper

theorem proper_empty : (Value.object []).Proper := by simp [Value.Proper, Value.ProperFields]

section Steps

variable (limit : Nat) {b b' : Build} {t : Token}

theorem Build.Proper.stepValue (h : b.Proper) (ht : t.Flat) (hstep : b.stepValue limit t = some b') :
    b'.Proper := by
  unfold Build.stepValue at hstep
  split at hstep
  · cases hstep
    exact ⟨h.stack, Value.proper_of_flat ht⟩
  · cases hstep
    exact ⟨h.stack, trivial⟩
  · split at hstep <;> cases hstep
    exact ⟨List.forall_mem_cons.mpr ⟨fun v hv => absurd hv List.not_mem_nil, h.stack⟩, trivial⟩
  · split at hstep <;> cases hstep
    exact ⟨h.stack, trivial⟩
  · cases hstep

/-- **A token keeps the names distinct.** -/
theorem Build.Proper.step (h : b.Proper) (ht : t.Flat) (hstep : b.step limit t = some b') :
    b'.Proper := by
  obtain ⟨stack, expect⟩ := b
  obtain ⟨hstack, hexpect⟩ := h
  cases expect with
  | value => exact Build.Proper.stepValue limit ⟨hstack, hexpect⟩ ht hstep
  | firstItem =>
    cases t with
    | closeArray =>
      obtain _ | ⟨⟨before⟩ | ⟨before, name⟩, stack⟩ := stack <;> cases hstep
      exact ⟨(List.forall_mem_cons.mp hstack).2,
        Value.proper_array fun v hv => absurd hv List.not_mem_nil⟩
    | _ => exact Build.Proper.stepValue limit ⟨hstack, hexpect⟩ ht hstep
  | firstName =>
    cases t with
    | closeObject | string name =>
      cases hstep
      exact ⟨hstack, proper_empty⟩
    | _ => cases hstep
  | name before =>
    cases t with
    | string name =>
      cases hstep
      exact ⟨hstack, hexpect⟩
    | _ => cases hstep
  | colon before name =>
    cases t with
    | colon =>
      cases hstep
      exact ⟨List.forall_mem_cons.mpr ⟨hexpect, hstack⟩, trivial⟩
    | _ => cases hstep
  | next v =>
    -- A comma and an end look at the innermost of what is open, and take the value into it.
    cases t with
    | comma =>
      obtain _ | ⟨⟨before⟩ | ⟨before, name⟩, stack⟩ := stack <;> cases hstep <;>
        obtain ⟨hframe, hstack⟩ := List.forall_mem_cons.mp hstack
      · have hbefore : ∀ w ∈ before, w.Proper := hframe
        have hitems : (Frame.items (v :: before)).Proper := List.forall_mem_cons.mpr ⟨hexpect, hbefore⟩
        exact ⟨List.forall_mem_cons.mpr ⟨hitems, hstack⟩, trivial⟩
      · exact ⟨hstack, Value.proper_set hframe hexpect⟩
    | closeArray =>
      obtain _ | ⟨⟨before⟩ | ⟨before, name⟩, stack⟩ := stack <;> cases hstep
      obtain ⟨hframe, hstack⟩ := List.forall_mem_cons.mp hstack
      have hbefore : ∀ w ∈ before, w.Proper := hframe
      have hitems : ∀ w ∈ v :: before, w.Proper := List.forall_mem_cons.mpr ⟨hexpect, hbefore⟩
      exact ⟨hstack, Value.proper_array fun w hw => hitems w (List.mem_reverse.mp hw)⟩
    | closeObject =>
      obtain _ | ⟨⟨before⟩ | ⟨before, name⟩, stack⟩ := stack <;> cases hstep
      obtain ⟨hframe, hstack⟩ := List.forall_mem_cons.mp hstack
      exact ⟨hstack, Value.proper_set hframe hexpect⟩
    | _ => cases hstep

end Steps

/-- **What is read has distinct field names.** -/
theorem proper_of_read {text : String} {v : Value} (h : read text = some v) : v.Proper :=
  (Build.holds_of_read (P := Build.Proper) ⟨fun _ hf => absurd hf List.not_mem_nil, trivial⟩
    (fun _ _ _ hb ht hstep => hb.step _ ht hstep) h).expect

end Json

end QueryAlgebra
