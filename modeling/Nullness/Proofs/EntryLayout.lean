import Nullness.Proofs.DescriptorGrammar
import Nullness.Proofs.Fixpoint

/-!
# The layout of the entry frame

When a method starts, what is passed to it lies in its first local variables,
one value after the other: the receiver, if there is one, and then the
parameters.  A value of two slots is followed by an unusable local variable, and
all local variables behind the last value are unset.

The values are stored one by one, and each store may touch the local variables
before and after its own.  That none of them does damage is shown along the
stores: what has been written so far ends with a whole value, and behind it
nothing is set.  Since there is room for all values before the first one is
stored, no store fails.
-/

namespace Nullness

namespace Frame

/-- The local variables that a value takes. -/
def cells (v : Value) : List Value := if v.size = 2 then [v, .conflict] else [v]

/-- Local variables that end with a whole value. -/
def EndsWhole (written : List Value) : Prop :=
  ∀ v ∈ written.getLast?, v.size ≠ 2

theorem endsWhole_nil : EndsWhole [] := by simp [EndsWhole]

theorem endsWhole_append_cells (written : List Value) (v : Value) :
    EndsWhole (written ++ cells v) := by
  intro w hw
  rw [cells] at hw
  split_ifs at hw with hwide
  · obtain rfl : Value.conflict = w := by simpa using hw
    decide
  · obtain rfl : v = w := by simpa using hw
    exact hwide

theorem length_cells {v : Value} (hv : v.Stackable) :
    (cells v).length = v.size.toNat := by
  rcases hv with hsize | hsize
  · rw [cells, hsize]
    rfl
  · rw [cells, hsize]
    rfl

/-- A value that is stored right behind what has been written takes its cells
there, and changes nothing else. -/
theorem storeAt_behind {written : List Value} {v : Value}
    (hwritten : EndsWhole written) (hv : v.Stackable) (unset : Nat) :
    storeAt (written ++ List.replicate (v.size.toNat + unset) .empty)
      written.length v = written ++ cells v ++ List.replicate unset .empty := by
  have hbelow : ¬(0 < written.length ∧
      ((written ++ List.replicate (v.size.toNat + unset)
        Value.empty)[written.length - 1]?).any (·.size = 2)) := by
    rintro ⟨hpos, hwide⟩
    rw [List.getElem?_append_left (by omega), ← List.getLast?_eq_getElem?,
      Option.any_eq_true] at hwide
    obtain ⟨w, hw, hsize⟩ := hwide
    exact hwritten w hw (by simpa using hsize)
  rw [storeAt, if_neg hbelow]
  rcases hv with hsize | hsize
  · have hunset : List.replicate (v.size.toNat + unset) Value.empty =
        .empty :: List.replicate unset .empty := by
      rw [hsize, Nat.add_comm]
      rfl
    rw [hunset, if_neg (by simp [hsize]), cells, if_neg (by simp [hsize])]
    simp
  · have hunset : List.replicate (v.size.toNat + unset) Value.empty =
        .empty :: .empty :: List.replicate unset .empty := by
      rw [hsize, Nat.add_comm]
      rfl
    rw [hunset, if_pos hsize, cells, if_pos hsize]
    simp

/-- The slots that values take are as many as their cells. -/
theorem length_flatMap_cells {vs : List Value} (hvs : ∀ v ∈ vs, v.Stackable) :
    (vs.flatMap cells).length = slotCount vs := by
  induction vs with
  | nil => rfl
  | cons v vs ih =>
      obtain ⟨hv, hvs⟩ := List.forall_mem_cons.mp hvs
      rw [List.flatMap_cons, List.length_append, length_cells hv, ih hvs,
        slotCount_cons]

/-- Each value stands behind those before it. -/
theorem getElem?_flatMap_cells {vs : List Value} (hvs : ∀ v ∈ vs, v.Stackable)
    {i : Nat} {v : Value} (hv : vs[i]? = some v) (rest : List Value) :
    (vs.flatMap cells ++ rest)[slotCount (vs.take i)]? = some v ∧
      (v.size = 2 →
        (vs.flatMap cells ++ rest)[slotCount (vs.take i) + 1]? =
          some .conflict) := by
  obtain ⟨hi, hget⟩ := List.getElem?_eq_some_iff.mp hv
  have hsplit : vs = vs.take i ++ v :: vs.drop (i + 1) := by
    rw [← hget, List.getElem_cons_drop, List.take_append_drop]
  have hbefore : (vs.take i |>.flatMap cells).length = slotCount (vs.take i) :=
    length_flatMap_cells fun w hw => hvs w (List.mem_of_mem_take hw)
  have hcells : vs.flatMap cells ++ rest =
      (vs.take i).flatMap cells ++
        (cells v ++ ((vs.drop (i + 1)).flatMap cells ++ rest)) := by
    conv_lhs => rw [hsplit]
    simp only [List.flatMap_append, List.flatMap_cons, List.append_assoc]
  rw [hcells, ← hbefore]
  constructor
  · rw [List.getElem?_append_right (Nat.le_refl _), Nat.sub_self, cells]
    split_ifs <;> rfl
  · intro hwide
    rw [List.getElem?_append_right (Nat.le_add_right _ 1),
      Nat.add_sub_cancel_left, cells, if_pos hwide]
    rfl

/-- Each slot of the values belongs to one of them. -/
theorem exists_slot_of_lt {vs : List Value} (hvs : ∀ v ∈ vs, v.Stackable)
    {j : Nat} (hj : j < slotCount vs) :
    ∃ (i : Nat) (v : Value), vs[i]? = some v ∧
      (j = slotCount (vs.take i) ∨ v.size = 2 ∧
        j = slotCount (vs.take i) + 1) := by
  induction vs generalizing j with
  | nil => exact absurd hj (Nat.not_lt_zero j)
  | cons v vs ih =>
      obtain ⟨hv, hvs⟩ := List.forall_mem_cons.mp hvs
      rw [slotCount_cons] at hj
      by_cases hbehind : v.size.toNat ≤ j
      · obtain ⟨i, w, hw, hslot⟩ := ih hvs (j := j - v.size.toNat) (by omega)
        refine ⟨i + 1, w, hw, ?_⟩
        rw [List.take_succ_cons, slotCount_cons]
        rcases hslot with hslot | ⟨hwide, hslot⟩
        · left
          omega
        · exact .inr ⟨hwide, by omega⟩
      · refine ⟨0, v, rfl, ?_⟩
        rw [List.take_zero, slotCount_nil]
        rcases hv with hsize | hsize
        · have hone : v.size.toNat = 1 := by rw [hsize]; rfl
          left
          omega
        · have htwo : v.size.toNat = 2 := by rw [hsize]; rfl
          rcases Nat.eq_zero_or_pos j with hzero | hpos
          · exact .inl hzero
          · exact .inr ⟨hsize, by omega⟩

/-- A store that ends inside the local variables is admitted, as long as there
are not too many of them for 64-bit arithmetic. -/
theorem admits_ofNat {length index : Nat} {size : UInt8}
    (hlength : length < 2 ^ 63) (hsize : size = 1 ∨ size = 2)
    (hroom : index + size.toNat ≤ length) :
    Admits length (Int64.ofNat index) size ∧
      (Int64.ofNat index).toInt.toNat = index := by
  have hindex : (Int64.ofNat index).toInt = index :=
    Int64.toInt_ofNat_of_lt (by omega)
  have hend : (Int64.ofNat index + Int64.ofNat size.toNat).toInt =
      (index + size.toNat : Nat) := by
    rw [← Int64.ofNat_add]
    exact Int64.toInt_ofNat_of_lt (by omega)
  refine ⟨⟨?_, ?_⟩, by omega⟩
  · rw [hend]
    omega
  · rw [hindex, Int.toNat_natCast, lastWritten]
    rcases hsize with rfl | rfl
    · exact Nat.lt_of_lt_of_le (Nat.lt_succ_self index) hroom
    · exact hroom

end Frame

/-- An entry of the exception table protects a range inside the body, and its
handler starts inside the body. -/
structure Handler.Valid (length : Nat) (h : Handler) : Prop where
  start_nonneg : 0 ≤ h.start.toInt
  start_lt : h.start.toInt < h.stop.toInt
  stop_le : h.stop.toInt ≤ length
  target_nonneg : 0 ≤ h.target.toInt
  target_lt : h.target.toInt < length

namespace Analysis

open Nullness.Frame (cells EndsWhole)

variable {assumed : Nullability} {m : Method}

/-! ## What is passed to a method -/

/-- The values of parameters of the given types, the first of which is parameter
`param`. -/
def parameterValues (assumed : Nullability) (m : Method) (param : Nat)
    (types : List Descriptor.FieldType) : List Value :=
  (types.zipIdx param).map fun (t, i) => parameterValue assumed (m.paramAt i) t

/-- The receiver of a method, if there is one. -/
def receiverValues (m : Method) : List Value :=
  if m.isStatic then [] else [.nonNull]

/-- The receiver of a method, if there is one, and its parameters. -/
def passedValues (assumed : Nullability) (m : Method)
    (types : List Descriptor.FieldType) : List Value :=
  receiverValues m ++ parameterValues assumed m 0 types

/-- A method has no receiver and no slot for one, or a receiver that takes one
slot. -/
theorem receiverValues_cases (m : Method) :
    (m.isStatic = true ∧ receiverSlots m = 0 ∧ receiverValues m = []) ∨
      (m.isStatic = false ∧ receiverSlots m = 1 ∧
        receiverValues m = [.nonNull]) := by
  rw [receiverSlots, receiverValues]
  cases m.isStatic <;> simp

theorem length_receiverValues (m : Method) :
    (receiverValues m).length = receiverSlots m := by
  rcases receiverValues_cases m with ⟨-, hslots, hvalues⟩ | ⟨-, hslots, hvalues⟩
  · rw [hslots, hvalues, List.length_nil]
  · rw [hslots, hvalues, List.length_singleton]

theorem slotCount_receiverValues (m : Method) :
    slotCount (receiverValues m) = receiverSlots m := by
  rcases receiverValues_cases m with ⟨-, hslots, hvalues⟩ | ⟨-, hslots, hvalues⟩
  · rw [hslots, hvalues, slotCount_nil]
  · rw [hslots, hvalues]
    rfl

theorem parameterValues_cons (param : Nat) (t : Descriptor.FieldType)
    (types : List Descriptor.FieldType) :
    parameterValues assumed m param (t :: types) =
      parameterValue assumed (m.paramAt param) t ::
        parameterValues assumed m (param + 1) types := rfl

theorem parameterValue_size_eq (declared : Nullability)
    (t : Descriptor.FieldType) :
    (parameterValue assumed declared t).size = t.size := by
  rw [parameterValue, Descriptor.FieldType.isReference,
    Descriptor.FieldType.size]
  cases t.kind <;> rfl

theorem stackable_of_mem_parameterValues {types : List Descriptor.FieldType}
    (htypes : ∀ t ∈ types, t.IsField) {param : Nat} {v : Value}
    (hv : v ∈ parameterValues assumed m param types) : v.Stackable := by
  obtain ⟨⟨t, i⟩, hmem, rfl⟩ := List.mem_map.mp hv
  have hfield : t.IsField := htypes t (List.fst_mem_of_mem_zipIdx hmem)
  exact (parameterValue_known hfield.kind_ne_void).2

theorem slotCount_parameterValues (param : Nat)
    (types : List Descriptor.FieldType) :
    slotCount (parameterValues assumed m param types) =
      (types.map (·.size.toNat)).sum := by
  induction types generalizing param with
  | nil => rfl
  | cons t types ih =>
      rw [parameterValues_cons, slotCount_cons, ih, parameterValue_size_eq,
        List.map_cons, List.sum_cons]

theorem argSlots_eq_sum (t : Descriptor.MethodType) :
    t.argSlots = (t.args.map (·.size.toNat)).sum := by
  rw [Descriptor.MethodType.argSlots, List.sum, List.foldr_map]

/-! ## Storing it -/

theorem length_locals_of_storeLocal {f f' : Frame} {index : Nat} {v : Value}
    (h : storeLocal f index v = .ok f') :
    f'.locals.length = f.locals.length := by
  obtain ⟨-, rfl⟩ := storeLocal_eq_ok_iff.mp h
  exact Frame.length_storeAt _ _ _

/-- A value is stored behind what has been written, if there is room for it. -/
theorem storeLocal_behind {f : Frame} {written : List Value} {v : Value}
    {unset : Nat} (hlength : f.locals.length < 2 ^ 63)
    (hwritten : EndsWhole written) (hv : v.Stackable)
    (hlocals : f.locals =
      written ++ List.replicate (v.size.toNat + unset) .empty) :
    storeLocal f written.length v =
      .ok (f.withLocals
        (written ++ cells v ++ List.replicate unset .empty)) := by
  have hroom : written.length + v.size.toNat ≤ f.locals.length := by
    rw [hlocals, List.length_append, List.length_replicate]
    omega
  obtain ⟨hadmits, hindex⟩ := Frame.admits_ofNat hlength hv hroom
  refine storeLocal_eq_ok_iff.mpr ⟨hadmits, ?_⟩
  rw [hindex, hlocals, Frame.storeAt_behind hwritten hv]

/-- Parameters are stored one behind the other. -/
theorem storeParameters_behind {types : List Descriptor.FieldType}
    (htypes : ∀ t ∈ types, t.IsField) {f : Frame} {written : List Value}
    {param unset : Nat} (hlength : f.locals.length < 2 ^ 63)
    (hwritten : EndsWhole written)
    (hlocals : f.locals = written ++ List.replicate
      (slotCount (parameterValues assumed m param types) + unset) .empty) :
    storeParameters m assumed param written.length f types =
      .ok (f.withLocals (written ++
        (parameterValues assumed m param types).flatMap cells ++
        List.replicate unset .empty)) := by
  induction types generalizing f written param with
  | nil =>
      have hkept :
          f.withLocals (written ++ List.replicate unset .empty) = f := by
        rw [parameterValues, List.zipIdx_nil, List.map_nil, slotCount_nil,
          Nat.zero_add] at hlocals
        rw [← hlocals]
        rfl
      rw [storeParameters, parameterValues, List.zipIdx_nil, List.map_nil,
        List.flatMap_nil, List.append_nil, hkept]
  | cons t types ih =>
      obtain ⟨ht, htypes⟩ := List.forall_mem_cons.mp htypes
      have hv : (parameterValue assumed (m.paramAt param) t).Stackable :=
        (parameterValue_known ht.kind_ne_void).2
      have hsize : (parameterValue assumed (m.paramAt param) t).size = t.size :=
        parameterValue_size_eq _ t
      rw [parameterValues_cons, slotCount_cons, Nat.add_assoc] at hlocals
      rw [storeParameters, parameterValues_cons]
      generalize parameterValue assumed (m.paramAt param) t = v
        at hv hsize hlocals ⊢
      have hstore := storeLocal_behind hlength hwritten hv hlocals
      have hnext : written.length + t.size.toNat =
          (written ++ cells v).length := by
        rw [List.length_append, Frame.length_cells hv, hsize]
      have hrest :=
        ih htypes (by rw [length_locals_of_storeLocal hstore]; exact hlength)
        (Frame.endsWhole_append_cells written v) rfl
      rw [hstore]
      dsimp only
      rw [hnext, hrest, List.flatMap_cons, ← List.append_assoc written]
      rfl

/-- The receiver, if there is one, is stored in the first local variable. -/
theorem receiverFrame_eq {unset : Nat}
    (hlocals : m.maxLocals.toInt.toNat = receiverSlots m + unset) :
    receiverFrame m = .ok ⟨receiverValues m ++ List.replicate unset .empty, [],
      0, m.maxStack.toInt.toNat⟩ := by
  have hlength : m.maxLocals.toInt < 2 ^ 63 := Int64.toInt_lt _
  rw [receiverFrame]
  rcases receiverValues_cases m with ⟨hstatic, hslots, hvalues⟩ |
    ⟨hstatic, hslots, hvalues⟩
  · rw [if_pos hstatic, hvalues, hlocals, hslots, Nat.zero_add]
    rfl
  · rw [hslots] at hlocals
    have hnew :
        (Frame.new m.maxLocals.toInt.toNat m.maxStack.toInt.toNat).locals =
        [] ++ List.replicate (Value.nonNull.size.toNat + unset) .empty := by
      rw [hlocals]
      rfl
    have hroom :
        (Frame.new m.maxLocals.toInt.toNat
          m.maxStack.toInt.toNat).locals.length <
        2 ^ 63 := by
      rw [Frame.new, List.length_replicate]
      omega
    have hstore := storeLocal_behind hroom Frame.endsWhole_nil (Or.inl rfl) hnew
    rw [List.length_nil, List.nil_append] at hstore
    rw [if_neg (by simp [hstatic]), hvalues]
    exact hstore

/-- The local variables of the entry frame. -/
def entryLocals (assumed : Nullability) (m : Method)
    (t : Descriptor.MethodType) : List Value :=
  (passedValues assumed m t.args).flatMap cells ++
    List.replicate
      (m.maxLocals.toInt.toNat - (t.argSlots + receiverSlots m)) .empty

/-- Where there is room for everything that is passed, it is stored, and nothing
else. -/
theorem entryFrame_eq_ok {t : Descriptor.MethodType}
    (hstack : 0 ≤ m.maxStack.toInt)
    (hparse : Descriptor.parseMethodType m.desc = .ok t)
    (hslots : ((t.argSlots + receiverSlots m : Nat) : Int) ≤
      m.maxLocals.toInt) :
    entryFrame assumed m = .ok ⟨entryLocals assumed m t, [], 0,
      m.maxStack.toInt.toNat⟩ := by
  obtain ⟨⟨hargs, -⟩, -⟩ := Descriptor.parseMethodType_eq_ok_iff.mp hparse
  have hlength : m.maxLocals.toInt < 2 ^ 63 := Int64.toInt_lt _
  obtain ⟨unset, hunset⟩ := Nat.exists_eq_add_of_le
    (show t.argSlots + receiverSlots m ≤ m.maxLocals.toInt.toNat by omega)
  have hreceiver := receiverFrame_eq (show m.maxLocals.toInt.toNat =
    receiverSlots m + (t.argSlots + unset) by omega)
  have hwhole : EndsWhole (receiverValues m) ∧
      (receiverValues m).flatMap cells = receiverValues m := by
    rcases receiverValues_cases m with ⟨-, -, hvalues⟩ | ⟨-, -, hvalues⟩
    · rw [hvalues]
      exact ⟨Frame.endsWhole_nil, rfl⟩
    · rw [hvalues]
      exact ⟨Frame.endsWhole_append_cells [] .nonNull, rfl⟩
  obtain ⟨hwritten, hcells⟩ := hwhole
  have hcount : t.argSlots =
      slotCount (parameterValues assumed m 0 t.args) := by
    rw [slotCount_parameterValues, argSlots_eq_sum]
  have hroom : (receiverValues m ++
      List.replicate (t.argSlots + unset) Value.empty).length < 2 ^ 63 := by
    rw [List.length_append, List.length_replicate, length_receiverValues]
    omega
  refine entryFrame_eq_ok_iff.mpr ⟨hstack, by omega, t, _, hparse, hslots,
    hreceiver, ?_⟩
  rw [← length_receiverValues,
    storeParameters_behind hargs hroom hwritten (by rw [hcount]), entryLocals,
    passedValues, List.flatMap_append, hcells, hunset, Nat.add_sub_cancel_left]
  rfl

/-! ## Single local variables -/

/-- The local variable of the parameter at an index: it comes after the receiver
and the parameters before. -/
def parameterSlot (m : Method) (t : Descriptor.MethodType) (i : Nat) : Nat :=
  receiverSlots m + ((t.args.take i).map (·.size.toNat)).sum

theorem take_parameterValues (param i : Nat)
    (types : List Descriptor.FieldType) :
    (parameterValues assumed m param types).take i =
      parameterValues assumed m param (types.take i) := by
  induction types generalizing param i with
  | nil =>
      rw [List.take_nil, parameterValues, List.zipIdx_nil, List.map_nil,
        List.take_nil]
  | cons t types ih =>
      rcases i with _ | i
      · rfl
      · rw [parameterValues_cons, List.take_succ_cons, ih, List.take_succ_cons,
          parameterValues_cons]

theorem getElem?_passedValues (types : List Descriptor.FieldType) (i : Nat) :
    (passedValues assumed m types)[receiverSlots m + i]? =
      types[i]?.map (parameterValue assumed (m.paramAt i)) := by
  rw [passedValues, ← length_receiverValues,
    List.getElem?_append_right (Nat.le_add_right _ _), Nat.add_sub_cancel_left,
    parameterValues, List.getElem?_map, List.getElem?_zipIdx, Option.map_map,
    Nat.zero_add]
  rfl

theorem slotCount_take_passedValues (assumed : Nullability) (m : Method)
    (t : Descriptor.MethodType) (i : Nat) :
    slotCount ((passedValues assumed m t.args).take (receiverSlots m + i)) =
      parameterSlot m t i := by
  rw [passedValues, ← length_receiverValues, List.take_length_add_append,
    slotCount_append, take_parameterValues, slotCount_parameterValues,
    slotCount_receiverValues, parameterSlot]

/-- What the frame of a method holds when the method starts. -/
structure EntryLayout (assumed : Nullability) (m : Method)
    (t : Descriptor.MethodType) (f : Frame) : Prop where
  stack : f.stack = [] ∧ f.slots = 0 ∧ (f.maxStack : Int) = m.maxStack.toInt
  length_locals : (f.locals.length : Int) = m.maxLocals.toInt
  receiver : m.isStatic = false → f.locals[0]? = some .nonNull
  primitive : ∀ i arg, t.args[i]? = some arg → arg.isReference = false →
    f.locals[parameterSlot m t i]? = some ⟨.nonNull, arg.size⟩
  reference : ∀ i arg, t.args[i]? = some arg → arg.isReference = true →
    ∃ n, f.locals[parameterSlot m t i]? = some ⟨n, 1⟩ ∧
      (m.paramAt i ≠ .unknown → n = m.paramAt i) ∧
      (m.paramAt i = .unknown → assumed ≠ .unknown → n = assumed) ∧
      (m.paramAt i = .unknown → assumed = .unknown → n = .nullable)
  upper : ∀ i arg, t.args[i]? = some arg → arg.size = 2 →
    f.locals[parameterSlot m t i + 1]? = some .conflict
  unset : ∀ j, j < f.locals.length → (m.isStatic = false → j ≠ 0) →
    (∀ i arg, t.args[i]? = some arg → j ≠ parameterSlot m t i ∧
      (arg.size = 2 → j ≠ parameterSlot m t i + 1)) →
    f.locals[j]? = some .empty

section Layout

variable {t : Descriptor.MethodType}

theorem stackable_of_mem_passedValues (assumed : Nullability) (m : Method)
    (ht : t.WellFormed) :
    ∀ v ∈ passedValues assumed m t.args, v.Stackable := by
  intro v hv
  rcases List.mem_append.mp hv with hv | hv
  · rcases receiverValues_cases m with ⟨-, -, hvalues⟩ | ⟨-, -, hvalues⟩
    · rw [hvalues] at hv
      exact absurd hv List.not_mem_nil
    · rw [hvalues] at hv
      rw [List.mem_singleton.mp hv]
      exact .inl rfl
  · exact stackable_of_mem_parameterValues ht.args hv

theorem length_passedCells (assumed : Nullability) (m : Method)
    (ht : t.WellFormed) :
    ((passedValues assumed m t.args).flatMap cells).length =
      t.argSlots + receiverSlots m := by
  rw [Frame.length_flatMap_cells (stackable_of_mem_passedValues assumed m ht),
    passedValues, slotCount_append, slotCount_receiverValues,
    slotCount_parameterValues, argSlots_eq_sum, Nat.add_comm]

/-- The receiver stands in the first local variable. -/
theorem entryLocals_receiver (hstatic : m.isStatic = false) :
    (entryLocals assumed m t)[0]? = some .nonNull := by
  rw [entryLocals, passedValues, receiverValues, if_neg (by simp [hstatic])]
  rfl

/-- The local variables that belong to a parameter. -/
theorem entryLocals_parameter (assumed : Nullability) (m : Method)
    (ht : t.WellFormed) {i : Nat} {arg : Descriptor.FieldType}
    (harg : t.args[i]? = some arg) :
    (entryLocals assumed m t)[parameterSlot m t i]? =
        some (parameterValue assumed (m.paramAt i) arg) ∧
      (arg.size = 2 → (entryLocals assumed m t)[parameterSlot m t i + 1]? =
        some .conflict) := by
  have hvalue : (passedValues assumed m t.args)[receiverSlots m + i]? =
      some (parameterValue assumed (m.paramAt i) arg) := by
    rw [getElem?_passedValues, harg, Option.map_some]
  have hcells :=
    Frame.getElem?_flatMap_cells (stackable_of_mem_passedValues assumed m ht)
      hvalue
  rw [slotCount_take_passedValues, parameterValue_size_eq] at hcells
  exact hcells _

/-- What is passed lies in the local variables of the receiver and of the
parameters. -/
theorem slot_cases (m : Method) (ht : t.WellFormed) {j : Nat}
    (hj : j < t.argSlots + receiverSlots m) :
    (m.isStatic = false ∧ j = 0) ∨ ∃ (i : Nat) (arg : Descriptor.FieldType),
      t.args[i]? = some arg ∧
        (j = parameterSlot m t i ∨ arg.size = 2 ∧
          j = parameterSlot m t i + 1) := by
  -- Which slots are taken does not depend on the nullability that is assumed.
  have hvalues := stackable_of_mem_passedValues .unknown m ht
  rw [← length_passedCells .unknown m ht,
    Frame.length_flatMap_cells hvalues] at hj
  obtain ⟨i, v, hv, hslot⟩ := Frame.exists_slot_of_lt hvalues hj
  by_cases hreceiver : i < receiverSlots m
  · left
    rw [passedValues,
      List.getElem?_append_left (by rwa [length_receiverValues])] at hv
    rcases receiverValues_cases m with ⟨-, hslots, -⟩ |
      ⟨hstatic, hslots, hvalue⟩
    · omega
    · obtain rfl : i = 0 := by omega
      rw [hvalue] at hv
      cases hv
      refine ⟨hstatic, ?_⟩
      rcases hslot with hslot | ⟨hwide, -⟩
      · exact hslot
      · exact absurd hwide (by decide)
  · right
    obtain ⟨k, rfl⟩ := Nat.exists_eq_add_of_le (Nat.le_of_not_lt hreceiver)
    rw [getElem?_passedValues] at hv
    obtain ⟨arg, harg, rfl⟩ := Option.map_eq_some_iff.mp hv
    rw [slotCount_take_passedValues, parameterValue_size_eq] at hslot
    exact ⟨k, arg, harg, hslot⟩

theorem entryLayout (ht : t.WellFormed) (hstack : 0 ≤ m.maxStack.toInt)
    (hslots : ((t.argSlots + receiverSlots m : Nat) : Int) ≤
      m.maxLocals.toInt) :
    EntryLayout assumed m t ⟨entryLocals assumed m t, [], 0,
      m.maxStack.toInt.toNat⟩ where
  stack := ⟨rfl, rfl, Int.toNat_of_nonneg hstack⟩
  length_locals := by
    rw [entryLocals, List.length_append, length_passedCells assumed m ht,
      List.length_replicate]
    omega
  receiver := entryLocals_receiver
  primitive i arg harg hprimitive := by
    obtain ⟨hvalue, -⟩ := entryLocals_parameter assumed m ht harg
    rw [parameterValue, if_neg (by simp [hprimitive])] at hvalue
    exact hvalue
  reference i arg harg hreference := by
    obtain ⟨hvalue, -⟩ := entryLocals_parameter assumed m ht harg
    rw [parameterValue, if_pos hreference] at hvalue
    refine ⟨_, hvalue, ?_, ?_, ?_⟩
    · intro hdeclared
      rw [effectiveNullability, if_neg hdeclared]
    · intro hdeclared hassumed
      rw [effectiveNullability, if_pos hdeclared, if_neg hassumed]
    · intro hdeclared hassumed
      rw [effectiveNullability, if_pos hdeclared, if_pos hassumed]
  upper i arg harg := (entryLocals_parameter assumed m ht harg).2
  unset j hj hreceiver hparameters := by
    dsimp only at hj ⊢
    have hbehind : t.argSlots + receiverSlots m ≤ j := by
      by_contra hpassed
      rcases slot_cases m ht (Nat.lt_of_not_le hpassed) with
        ⟨hstatic, hzero⟩ | ⟨i, arg, harg, hslot⟩
      · exact hreceiver hstatic hzero
      · obtain ⟨hlower, hupper⟩ := hparameters i arg harg
        rcases hslot with hslot | ⟨hwide, hslot⟩
        · exact hlower hslot
        · exact hupper hwide hslot
    have hlength := length_passedCells assumed m ht
    rw [entryLocals, List.length_append, hlength] at hj
    rw [entryLocals, List.getElem?_append_right (by omega), hlength]
    exact List.getElem?_replicate_of_lt
      (by rw [List.length_replicate] at hj; omega)

end Layout

/-! ## Methods without an entry frame -/

/-- Why a method has no entry frame.  The bounds are looked at first, then the
descriptor, then the room for what is passed. -/
inductive NoEntry (m : Method) : Cause → Prop
  | bounds (h : m.maxStack.toInt < 0 ∨ m.maxLocals.toInt < 0) :
      NoEntry m (.bounds m.maxStack m.maxLocals)
  | descriptor {e : Descriptor.Error} (hstack : 0 ≤ m.maxStack.toInt)
      (hlocals : 0 ≤ m.maxLocals.toInt)
      (hdesc : ∀ t : Descriptor.MethodType, t.WellFormed → t.render ≠ m.desc)
      (hread : Descriptor.parseMethodType m.desc = .error e) :
      NoEntry m (.descriptor e)
  | slots {t : Descriptor.MethodType} {slots : Nat}
      (hstack : 0 ≤ m.maxStack.toInt)
      (hlocals : 0 ≤ m.maxLocals.toInt) (ht : t.WellFormed)
      (hdesc : t.render = m.desc) (hslots : slots = t.args.length +
        (t.args.countP fun arg => arg.desc = [byte 'J'] ∨
          arg.desc = [byte 'D']) +
        if m.isStatic then 0 else 1)
      (hroom : m.maxLocals.toInt < slots) :
      NoEntry m (.parameterSlots slots m.maxLocals)

theorem passed_eq {t : Descriptor.MethodType} (ht : t.WellFormed) :
    t.argSlots + receiverSlots m = t.args.length +
      (t.args.countP fun arg => arg.desc = [byte 'J'] ∨ arg.desc = [byte 'D']) +
      if m.isStatic then 0 else 1 := by
  rw [show t.argSlots = _ from Descriptor.argSlots_eq ht.args t.result,
    receiverSlots]

theorem entryFrame_of_noEntry {cause : Cause} (h : NoEntry m cause) :
    entryFrame assumed m = .error (.error cause) := by
  rcases h with hbounds | ⟨hstack, hlocals, -, hread⟩ |
    ⟨hstack, hlocals, ht, hdesc, hslots, hroom⟩
  · rw [entryFrame, if_pos hbounds]
  · rw [entryFrame, if_neg (by omega), hread]
  · rw [← passed_eq ht] at hslots
    subst hslots
    rw [entryFrame, if_neg (by omega),
      Descriptor.parseMethodType_eq_ok_iff.mpr ⟨ht, hdesc⟩]
    dsimp only
    rw [if_pos hroom]

/-- A method has an entry frame, or one of the reasons for having none. -/
theorem noEntry_or_layout (assumed : Nullability) (m : Method) :
    (∃ cause, NoEntry m cause) ∨ ∃ t entry, t.WellFormed ∧ t.render = m.desc ∧
      entryFrame assumed m = .ok entry ∧ EntryLayout assumed m t entry := by
  by_cases hbounds : m.maxStack.toInt < 0 ∨ m.maxLocals.toInt < 0
  · exact .inl ⟨_, .bounds hbounds⟩
  obtain ⟨hstack, hlocals⟩ : 0 ≤ m.maxStack.toInt ∧ 0 ≤ m.maxLocals.toInt := by
    omega
  rcases hread : Descriptor.parseMethodType m.desc with e | t
  · refine .inl ⟨_, .descriptor hstack hlocals ?_ hread⟩
    intro t ht hdesc
    rw [Descriptor.parseMethodType_eq_ok_iff.mpr ⟨ht, hdesc⟩] at hread
    cases hread
  · obtain ⟨ht, hdesc⟩ := Descriptor.parseMethodType_eq_ok_iff.mp hread
    rcases Int.lt_or_le m.maxLocals.toInt
      ((t.argSlots + receiverSlots m : Nat) : Int) with hroom | hroom
    · exact .inl ⟨_, .slots hstack hlocals ht hdesc (passed_eq ht) hroom⟩
    · exact .inr ⟨t, _, ht, hdesc, entryFrame_eq_ok hstack hread hroom,
        entryLayout ht hstack hroom⟩

theorem badHandler?_eq_none_iff :
    badHandler? m = none ↔ ∀ h ∈ m.handlers, h.Valid m.instructions.length := by
  rw [badHandler?, List.find?_eq_none]
  refine forall₂_congr fun h hmem => ?_
  simp only [Bool.or_eq_true, decide_eq_true_eq, not_or, not_lt, not_le]
  constructor
  · rintro ⟨⟨⟨⟨hstart, hrange⟩, hstop⟩, htarget⟩, hinside⟩
    exact ⟨hstart, hrange, hstop, htarget, hinside⟩
  · rintro ⟨hstart, hrange, hstop, htarget, hinside⟩
    exact ⟨⟨⟨⟨hstart, hrange⟩, hstop⟩, htarget⟩, hinside⟩

/-- The layout of the entry frame.  A method with instructions and a valid
exception table has no entry frame exactly if a bound is negative, its
descriptor is none, or there is no room for what is passed to it, and the
analysis reports the first of these without a position; nothing else can go
wrong.  Otherwise the local variables hold what is passed, one value behind the
other, and nothing else. -/
theorem entryFrame_layout (assumed : Nullability) (m : Method)
    (hne : m.instructions ≠ [])
    (hhandlers : ∀ h ∈ m.handlers, h.Valid m.instructions.length) :
    (∀ failure, entryFrame assumed m = .error failure ↔
      ∃ cause, failure = .error cause ∧ NoEntry m cause) ∧
    (∀ cause, NoEntry m cause →
      analyze assumed m = .error (.error ⟨m.signature, none, cause⟩)) ∧
    ((∀ cause, ¬NoEntry m cause) → ∃ t entry, t.WellFormed ∧ t.render = m.desc ∧
      entryFrame assumed m = .ok entry ∧ EntryLayout assumed m t entry) := by
  refine ⟨fun failure => ⟨fun h => ?_, ?_⟩, fun cause h => ?_, fun h => ?_⟩
  · rcases noEntry_or_layout assumed m with ⟨cause, hcause⟩ |
      ⟨t, entry, -, -, hentry, -⟩
    · rw [entryFrame_of_noEntry hcause] at h
      exact ⟨cause, (Except.error.inj h).symm, hcause⟩
    · rw [hentry] at h
      cases h
  · rintro ⟨cause, rfl, hcause⟩
    exact entryFrame_of_noEntry hcause
  · rw [analyze_eq_bind assumed hne, enter,
      badHandler?_eq_none_iff.mpr hhandlers, entryFrame_of_noEntry h]
    rfl
  · rcases noEntry_or_layout assumed m with ⟨cause, hcause⟩ | hlayout
    · exact absurd hcause (h cause)
    · exact hlayout

/-- A method that is passed its receiver and narrow and wide parameters in
turn. -/
def takeMixed : Method where
  owner := text "Node"
  name := text "take"
  desc := text "(JLNode;D[JLNode;)V"
  isStatic := false
  maxStack := 1
  maxLocals := 9
  instructions := [
    .plain ⟨177⟩, -- return
    .plain ⟨191⟩] -- athrow
  handlers := [⟨0, 1, 1, []⟩]
  params := [.nullable, .null, .unknown, .nonNull]

theorem entryFrame_layout_takeMixed :
    takeMixed.instructions ≠ [] ∧
      (∀ h ∈ takeMixed.handlers, h.Valid takeMixed.instructions.length) ∧
      ∃ t : Descriptor.MethodType, t.WellFormed ∧ t.render = takeMixed.desc ∧
        EntryLayout .unknown takeMixed t
          ⟨[.nonNull, .primitive 2, .conflict, .ref .null, .primitive 2,
            .conflict, .nonNull, .nullable, .empty], [], 0, 1⟩ := by
  have hhandlers : ∀ h ∈ takeMixed.handlers,
      h.Valid takeMixed.instructions.length := by
    rintro h (_ | ⟨_, ⟨⟩⟩)
    exact ⟨by decide, by decide, by decide, by decide, by decide⟩
  obtain ⟨hfails, -, hlayout⟩ :=
    entryFrame_layout .unknown takeMixed (by decide) hhandlers
  have hentry : entryFrame .unknown takeMixed = .ok
      ⟨[.nonNull, .primitive 2, .conflict, .ref .null, .primitive 2, .conflict,
        .nonNull, .nullable, .empty], [], 0, 1⟩ := by
    decide +kernel
  obtain ⟨t, entry, ht, hdesc, hentry', hlaid⟩ := hlayout fun cause hcause => by
    have hfailure := (hfails _).mpr ⟨cause, rfl, hcause⟩
    rw [hentry] at hfailure
    cases hfailure
  obtain rfl := Except.ok.inj (hentry.symm.trans hentry')
  exact ⟨by decide, hhandlers, t, ht, hdesc, hlaid⟩

end Analysis
end Nullness
