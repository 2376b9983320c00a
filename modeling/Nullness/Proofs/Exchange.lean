import Mathlib.Algebra.BigOperators.Group.List.Basic
import Mathlib.Algebra.GroupWithZero.Nat
import Nullness.Effect

/-!
# What an effect does, declaratively

Every effect takes some entries from the top of the stack, perhaps reads or
writes one local variable, and puts some entries back.  `Exchange` lists the
possible cases, one rule for each shape of effect, without the order of the
single operations and without the stack bound.

The two theorems at the end tie the rules to the actions that carry effects out.
An effect that runs has an exchange (`exists_exchange_of_run`), and an effect
that has an exchange runs, unless the stack overflows (`run_of_exchange`).

How a local variable is read is a parameter: besides the reading of the machine,
which refuses an unset variable, there is a relaxed one, which yields a value
about which nothing is known.
-/

namespace Nullness

/-- The number of slots that values take together. -/
def slotCount (vs : List Value) : Nat := (vs.map (·.size.toNat)).sum

@[simp] theorem slotCount_nil : slotCount [] = 0 := rfl

@[simp] theorem slotCount_cons (v : Value) (vs : List Value) :
    slotCount (v :: vs) = v.size.toNat + slotCount vs := by
  simp [slotCount]

@[simp] theorem slotCount_append (vs ws : List Value) :
    slotCount (vs ++ ws) = slotCount vs + slotCount ws := by
  simp [slotCount]

@[simp] theorem slotCount_reverse (vs : List Value) :
    slotCount vs.reverse = slotCount vs := by
  simp [slotCount, List.sum_reverse]

theorem slotCount_eq_of_sizes {vs ws : List Value}
    (h : vs.map (·.size) = ws.map (·.size)) :
    slotCount vs = slotCount ws := by
  have hcount := congrArg (fun sizes => (sizes.map UInt8.toNat).sum) h
  simpa [slotCount, Function.comp_def] using hcount

namespace Value

/-- A value that can be on the stack. -/
def Stackable (v : Value) : Prop := v.size = 1 ∨ v.size = 2

/-- Reads a local variable with the given content as a value of a size. -/
def read (size : UInt8) (v : Value) : Option Value :=
  if v.isEmpty || v.isConflict then none
  else if v.size ≠ size then none
  else some v

/-- Reads a local variable as `read` does, except that an unset one yields a
value of unknown nullability. -/
def relaxedRead (size : UInt8) (v : Value) : Option Value :=
  if v.isEmpty then some ⟨.unknown, size⟩ else v.read size

end Value

namespace Frame

/-- The frame with another stack. -/
def restack (f : Frame) (stack : List Value) (slots : Nat) : Frame :=
  { f with stack := stack, slots := slots }

@[simp] theorem restack_stack (f : Frame) (stack : List Value) (slots : Nat) :
    (f.restack stack slots).stack = stack := rfl

@[simp] theorem restack_slots (f : Frame) (stack : List Value) (slots : Nat) :
    (f.restack stack slots).slots = slots := rfl

@[simp] theorem restack_maxStack (f : Frame) (stack : List Value)
    (slots : Nat) : (f.restack stack slots).maxStack = f.maxStack := rfl

@[simp] theorem restack_restack (f : Frame) (stack stack' : List Value)
    (slots slots' : Nat) :
    (f.restack stack slots).restack stack' slots' = f.restack stack' slots' :=
  rfl

@[simp] theorem restack_self (f : Frame) :
    f.restack f.stack f.slots = f := rfl

/-- The frame with other local variables. -/
def withLocals (f : Frame) (locals : List Value) : Frame :=
  { f with locals := locals }

/-- A local variable of the given index can take a value of the given size. -/
def Admits (length : Nat) (index : Int64) (size : UInt8) : Prop :=
  ¬(index.toInt < 0
      ∨ (length : Int) < (index + Int64.ofNat size.toNat).toInt)
    ∧ lastWritten index.toInt.toNat size < length

/-- The value in a local variable, as `loadLocal` gives it, except that an unset
variable yields a value of unknown nullability and the given size. -/
def relaxedLoad (index : Int64) (size : UInt8) : Action Value := fun f =>
  match f.local? index with
  | some v =>
    if v.isEmpty then .ok ⟨.unknown, size⟩ f else loadLocal index size f
  | none => loadLocal index size f

/-! ## The single operations -/

theorem bind_of_ok {α β : Type} {a : Action α} {b : α → Action β}
    {f g : Frame} {x : α} (h : a f = .ok x g) :
    (a >>= b) f = b x g := by
  change EStateM.bind a b f = b x g
  simp [EStateM.bind, h]

theorem bind_of_error {α β : Type} {a : Action α} {b : α → Action β}
    {f g : Frame} {failure : Failure Error} (h : a f = .error failure g) :
    (a >>= b) f = .error failure g := by
  change EStateM.bind a b f = .error failure g
  simp [EStateM.bind, h]

/-- A sequence succeeds exactly if both parts do. -/
theorem bind_eq_ok_iff {α β : Type} {a : Action α} {b : α → Action β}
    {f f' : Frame} {y : β} :
    (a >>= b) f = .ok y f' ↔ ∃ x g, a f = .ok x g ∧ b x g = .ok y f' := by
  cases h : a f with
  | ok x g =>
      rw [bind_of_ok h]
      constructor
      · intro hb
        exact ⟨x, g, rfl, hb⟩
      · rintro ⟨x', g', heq, hb⟩
        cases heq
        exact hb
  | error failure g =>
      rw [bind_of_error h]
      simp

theorem pure_eq {α : Type} (x : α) (f : Frame) :
    (pure x : Action α) f = .ok x f := rfl

theorem refuse_eq {α : Type} (e : Error) (f : Frame) :
    (refuse e : Action α) f = .error (.error e) f := rfl

theorem pop_eq_ok_iff {f g : Frame} {v : Value} :
    pop f = .ok v g ↔
      ∃ rest, f.stack = v :: rest ∧
        g = f.restack rest (f.slots - v.size.toNat) := by
  rw [pop]
  cases f.stack with
  | nil => simp [refuse_eq]
  | cons w rest =>
      constructor
      · intro h
        cases h
        exact ⟨rest, rfl, rfl⟩
      · rintro ⟨rest', hcons, rfl⟩
        cases hcons
        rfl

theorem popSized_eq_ok_iff {size : UInt8} {f g : Frame} {v : Value} :
    popSized size f = .ok v g ↔
      v.size = size ∧ ∃ rest, f.stack = v :: rest ∧
        g = f.restack rest (f.slots - v.size.toNat) := by
  rw [popSized, bind_eq_ok_iff]
  constructor
  · rintro ⟨w, f', hpop, hrest⟩
    by_cases hsize : w.size = size
    · rw [if_neg (by simp [hsize]), pure_eq] at hrest
      cases hrest
      exact ⟨hsize, pop_eq_ok_iff.mp hpop⟩
    · rw [if_pos hsize, refuse_eq] at hrest
      cases hrest
  · rintro ⟨hsize, hpop⟩
    refine ⟨v, g, pop_eq_ok_iff.mpr hpop, ?_⟩
    rw [if_neg (by simp [hsize]), pure_eq]

theorem popSizes_eq_ok_iff {sizes : List UInt8} {f g : Frame} :
    popSizes sizes f = .ok () g ↔
      ∃ taken rest, taken.map (·.size) = sizes ∧ f.stack = taken ++ rest ∧
        g = f.restack rest (f.slots - slotCount taken) := by
  induction sizes generalizing f with
  | nil =>
      rw [popSizes, pure_eq]
      constructor
      · intro h
        obtain rfl : f = g := by injection h
        exact ⟨[], f.stack, rfl, rfl, rfl⟩
      · rintro ⟨taken, rest, htaken, hstack, rfl⟩
        rw [List.map_eq_nil_iff] at htaken
        subst htaken
        rw [List.nil_append] at hstack
        simp [← hstack]
  | cons size sizes ih =>
      rw [popSizes, bind_eq_ok_iff]
      constructor
      · rintro ⟨v, f', hpop, hpops⟩
        obtain ⟨hsize, stack, hstack, rfl⟩ := popSized_eq_ok_iff.mp hpop
        obtain ⟨taken, rest, hsizes, hrest, rfl⟩ := ih.mp hpops
        refine ⟨v :: taken, rest, by simp [hsize, hsizes], ?_, ?_⟩
        · rw [hstack]
          exact congrArg (v :: ·) hrest
        · simp [Nat.sub_sub]
      · rintro ⟨taken, rest, hsizes, hstack, rfl⟩
        cases taken with
        | nil => simp at hsizes
        | cons v taken =>
            rw [List.map_cons, List.cons.injEq] at hsizes
            refine ⟨v, f.restack (taken ++ rest) (f.slots - v.size.toNat), ?_,
              ?_⟩
            · exact popSized_eq_ok_iff.mpr ⟨hsizes.1, taken ++ rest, hstack,
                rfl⟩
            · exact ih.mpr ⟨taken, rest, hsizes.2, rfl, by simp [Nat.sub_sub]⟩

/-- A value that fits the stack in size is pushed, or the stack overflows. -/
theorem push_of_stackable {v : Value} (hv : v.Stackable) (f : Frame) :
    push v f =
      if f.slots + v.size.toNat ≤ f.maxStack then
        .ok () (f.restack (v :: f.stack) (f.slots + v.size.toNat))
      else .error (.error (.stackOverflow f.maxStack)) f := by
  have hsize : ¬(v.size ≠ 1 ∧ v.size ≠ 2) := by
    rw [not_and_or, not_not, not_not]
    exact hv
  rw [push, if_neg hsize]
  by_cases hroom : f.slots + v.size.toNat ≤ f.maxStack
  · rw [if_neg (by omega), if_pos hroom]
    rfl
  · rw [if_pos (by omega), if_neg hroom, refuse_eq]

theorem stackable_of_push {v : Value} {f g : Frame}
    (h : push v f = .ok () g) : v.Stackable := by
  by_contra hv
  rw [Value.Stackable, not_or] at hv
  rw [push, if_pos hv, refuse_eq] at h
  cases h

/-- The frame has room for the given entries. -/
def Room (f : Frame) (given : List Value) : Prop :=
  given = [] ∨ f.slots + slotCount given ≤ f.maxStack

/-- The result of putting entries, the top first, on the stack of a frame: they
are there, or they do not fit and the stack overflows. -/
def Lands (f : Frame) (given : List Value)
    (result : EStateM.Result (Failure Error) Frame Unit) : Prop :=
  (f.Room given ∧
      result = .ok ()
        (f.restack (given ++ f.stack) (f.slots + slotCount given))) ∨
    (¬f.Room given ∧
      ∃ f', result = .error (.error (.stackOverflow f.maxStack)) f')

theorem pushAll_lands {vs : List Value}
    (hvs : ∀ v ∈ vs, v.Stackable) (f : Frame) :
    f.Lands vs.reverse (pushAll vs f) := by
  induction vs generalizing f with
  | nil => exact Or.inl ⟨Or.inl rfl, rfl⟩
  | cons v vs ih =>
      have hpush := push_of_stackable (hvs v (by simp)) f
      by_cases hroom : f.slots + v.size.toNat ≤ f.maxStack
      · rw [if_pos hroom] at hpush
        have hroomIff :
            (f.restack (v :: f.stack) (f.slots + v.size.toNat)).Room
                vs.reverse ↔
              f.Room (v :: vs).reverse := by
          cases vs with
          | nil => simp [Room, hroom]
          | cons w vs =>
              simp only [Room, List.reverse_eq_nil_iff, reduceCtorEq, false_or,
                restack_slots, restack_maxStack, slotCount_reverse,
                slotCount_cons, Nat.add_assoc]
        rw [pushAll, bind_of_ok hpush, Lands, ← hroomIff]
        rcases ih (fun w hw => hvs w (by simp [hw])) _ with ⟨hr, h⟩ | ⟨hr, h⟩
        · refine Or.inl ⟨hr, ?_⟩
          rw [h]
          simp [Nat.add_assoc, Nat.add_comm (slotCount vs)]
        · exact Or.inr ⟨hr, h⟩
      · rw [if_neg hroom] at hpush
        refine Or.inr ⟨?_, f, ?_⟩
        · simp only [Room, List.reverse_eq_nil_iff, reduceCtorEq, false_or,
            slotCount_reverse, slotCount_cons]
          omega
        · rw [pushAll, bind_of_error hpush]

theorem push_eq_pushAll (v : Value) (f : Frame) :
    push v f = pushAll [v] f := by
  cases h : push v f with
  | ok x g => rw [pushAll, bind_of_ok h, pushAll, pure_eq]
  | error failure g => rw [pushAll, bind_of_error h]

theorem stackable_of_pushAll {vs : List Value} {f g : Frame}
    (h : pushAll vs f = .ok () g) : ∀ v ∈ vs, v.Stackable := by
  induction vs generalizing f with
  | nil => simp
  | cons v vs ih =>
      rw [pushAll, bind_eq_ok_iff] at h
      obtain ⟨_, f', hpush, hrest⟩ := h
      intro w hw
      rcases List.mem_cons.mp hw with rfl | hw
      · exact stackable_of_push hpush
      · exact ih hrest w hw

theorem local?_eq_some_iff {f : Frame} {index : Int64} {v : Value} :
    f.local? index = some v ↔
      0 ≤ index.toInt ∧ f.locals[index.toInt.toNat]? = some v := by
  rw [local?]
  by_cases h : index.toInt < 0
  · rw [if_pos h]
    exact iff_of_false (by simp) fun h' => absurd h'.1 (by omega)
  · rw [if_neg h]
    exact (and_iff_right (by omega)).symm

theorem setLocal_eq_ok_iff {index : Int64} {v : Value} {f g : Frame} :
    setLocal index v f = .ok () g ↔
      Admits f.locals.length index v.size ∧
        g = { f with locals := storeAt f.locals index.toInt.toNat v } := by
  rw [setLocal]
  by_cases hrange : index.toInt < 0
      ∨ (f.locals.length : Int) < (index + Int64.ofNat v.size.toNat).toInt
  · rw [if_pos hrange, refuse_eq]
    exact iff_of_false (by simp) fun h => h.1.1 hrange
  · rw [if_neg hrange]
    by_cases hindex : lastWritten index.toInt.toNat v.size < f.locals.length
    · rw [if_pos hindex]
      constructor
      · intro h
        injection h with _ hg
        exact ⟨⟨hrange, hindex⟩, hg.symm⟩
      · rintro ⟨-, rfl⟩
        rfl
    · rw [if_neg hindex]
      exact iff_of_false (by simp) fun h => hindex h.1.2

theorem lt_of_lastWritten_lt {index length : Nat} {size : UInt8}
    (h : lastWritten index size < length) : index < length := by
  rw [lastWritten] at h
  split_ifs at h <;> omega

theorem length_storeAt (locals : List Value) (index : Nat) (v : Value) :
    (storeAt locals index v).length = locals.length := by
  rw [storeAt]
  split_ifs <;> simp

theorem loadLocal_eq_ok_iff {index : Int64} {size : UInt8} {f g : Frame}
    {v : Value} :
    loadLocal index size f = .ok v g ↔
      g = f ∧ (f.local? index).bind (Value.read size) = some v := by
  rw [loadLocal]
  cases f.local? index with
  | none => simp [refuse_eq]
  | some w =>
      rw [Option.bind_some, Value.read]
      dsimp only
      split_ifs with hunusable hsize
      · simp [refuse_eq]
      · simp [refuse_eq]
      · constructor
        · intro h
          cases h
          exact ⟨rfl, rfl⟩
        · rintro ⟨rfl, h⟩
          cases h
          rfl

theorem relaxedLoad_eq_ok_iff {index : Int64} {size : UInt8} {f g : Frame}
    {v : Value} :
    relaxedLoad index size f = .ok v g ↔
      g = f ∧ (f.local? index).bind (Value.relaxedRead size) = some v := by
  rw [relaxedLoad]
  cases hlocal : f.local? index with
  | none => simp [loadLocal_eq_ok_iff, hlocal]
  | some w =>
      rw [Option.bind_some, Value.relaxedRead]
      by_cases hempty : w.isEmpty
      · simp only [hempty, if_true, Option.some.injEq]
        constructor
        · intro h
          cases h
          exact ⟨rfl, rfl⟩
        · rintro ⟨rfl, rfl⟩
          rfl
      · simp [hempty, loadLocal_eq_ok_iff, hlocal]

end Frame

/-! ## Exchanges -/

/-- The sizes that the entries of a block have, the top first. -/
def Block.Fits : Block → List UInt8 → Prop
  | .one, sizes => sizes = [1]
  | .two, sizes => sizes = [2] ∨ ∃ size, size ≠ 2 ∧ sizes = [size, 1]

theorem Block.take_eq_ok_iff {b : Block} {f g : Frame} {vs : List Value} :
    b.take f = .ok vs g ↔
      ∃ taken rest, b.Fits (taken.map (·.size)) ∧ f.stack = taken ++ rest ∧
        vs = taken.reverse ∧
          g = f.restack rest (f.slots - slotCount taken) := by
  cases b with
  | one =>
      rw [Block.take, Frame.bind_eq_ok_iff]
      constructor
      · rintro ⟨v, f', hpop, hpure⟩
        obtain ⟨hsize, rest, hstack, rfl⟩ := Frame.popSized_eq_ok_iff.mp hpop
        rw [Frame.pure_eq] at hpure
        cases hpure
        exact ⟨[v], rest, by simp [Fits, hsize], hstack, rfl, by simp⟩
      · rintro ⟨taken, rest, hfits, hstack, rfl, rfl⟩
        obtain ⟨v, rfl, hsize⟩ := List.map_eq_singleton_iff.mp hfits
        refine ⟨v, f.restack rest (f.slots - slotCount [v]), ?_, rfl⟩
        exact Frame.popSized_eq_ok_iff.mpr ⟨hsize, rest, hstack, by simp⟩
  | two =>
      rw [Block.take, Frame.bind_eq_ok_iff]
      constructor
      · rintro ⟨v, f', hpop, hnext⟩
        obtain ⟨rest, hstack, rfl⟩ := Frame.pop_eq_ok_iff.mp hpop
        by_cases hsize : v.size = 2
        · rw [if_pos hsize, Frame.pure_eq] at hnext
          cases hnext
          exact ⟨[v], rest, by simp [Fits, hsize], hstack, rfl, by simp⟩
        · rw [if_neg hsize, Frame.bind_eq_ok_iff] at hnext
          obtain ⟨w, f', hpop', hpure⟩ := hnext
          obtain ⟨hsize', rest', hstack', rfl⟩ :=
            Frame.popSized_eq_ok_iff.mp hpop'
          rw [Frame.restack_stack] at hstack'
          rw [Frame.pure_eq] at hpure
          cases hpure
          refine ⟨[v, w], rest', ?_, ?_, rfl, by simp [Nat.sub_sub]⟩
          · simp [Fits, hsize, hsize']
          · rw [hstack, hstack']
            rfl
      · rintro ⟨taken, rest, hfits, hstack, rfl, rfl⟩
        rcases hfits with hfits | ⟨size, hne, hfits⟩
        · obtain ⟨v, rfl, hsize⟩ := List.map_eq_singleton_iff.mp hfits
          refine ⟨v, f.restack rest (f.slots - slotCount [v]), ?_, ?_⟩
          · exact Frame.pop_eq_ok_iff.mpr ⟨rest, hstack, by simp⟩
          · rw [if_pos hsize, Frame.pure_eq]
            rfl
        · obtain ⟨v, ws, rfl, hsize, hws⟩ := List.map_eq_cons_iff.mp hfits
          obtain ⟨w, rfl, hsize'⟩ := List.map_eq_singleton_iff.mp hws
          refine ⟨v, f.restack (w :: rest) (f.slots - v.size.toNat), ?_, ?_⟩
          · exact Frame.pop_eq_ok_iff.mpr ⟨w :: rest, hstack, rfl⟩
          · rw [if_neg (by rw [hsize]; exact hne), Frame.bind_eq_ok_iff]
            refine ⟨w, f.restack rest (f.slots - slotCount [v, w]), ?_, rfl⟩
            exact Frame.popSized_eq_ok_iff.mpr
              ⟨hsize', rest, rfl, by simp [Nat.sub_sub]⟩

namespace Effect

/-- The entries that an effect takes from the stack and those that it gives, the
top first, and the local variables after it, when local variables are read in
the given way. -/
inductive Exchange (read : UInt8 → Value → Option Value)
    (locals : List Value) :
    Effect → List Value → List Value → List Value → Prop
  | consume {sizes : List UInt8} {result : Option Value}
      {taken : List Value} (hsizes : taken.map (·.size) = sizes) :
      Exchange read locals (.consume sizes result) taken result.toList locals
  | drop {top : Block} {taken : List Value}
      (hfits : top.Fits (taken.map (·.size))) :
      Exchange read locals (.shuffle (.drop top)) taken [] locals
  | copy {top : Block} {taken : List Value}
      (hfits : top.Fits (taken.map (·.size))) :
      Exchange read locals (.shuffle (.copy top)) taken (taken ++ taken) locals
  | copyUnder {top below : Block} {a b : List Value}
      (ha : top.Fits (a.map (·.size))) (hb : below.Fits (b.map (·.size))) :
      Exchange read locals (.shuffle (.copyUnder top below)) (a ++ b)
        (a ++ b ++ a) locals
  | swap {a b : List Value} (ha : Block.one.Fits (a.map (·.size)))
      (hb : Block.one.Fits (b.map (·.size))) :
      Exchange read locals (.shuffle .swap) (a ++ b) (b ++ a) locals
  | load {index : Int64} {size : UInt8} {v w : Value}
      (hindex : 0 ≤ index.toInt) (hv : locals[index.toInt.toNat]? = some v)
      (hread : read size v = some w) :
      Exchange read locals (.load index size) [] [w] locals
  | store {index : Int64} {size : UInt8} {v : Value} (hsize : v.size = size)
      (hadmits : Frame.Admits locals.length index v.size) :
      Exchange read locals (.store index size) [v] []
        (Frame.storeAt locals index.toInt.toNat v)
  | read {index : Int64} {v w : Value} (hindex : 0 ≤ index.toInt)
      (hv : locals[index.toInt.toNat]? = some v) (hread : read 1 v = some w) :
      Exchange read locals (.read index) [] [] locals
  | recast {v : Value} (hsize : v.size = 1) :
      Exchange read locals .recast [v] [v] locals

/-- Carries out an effect with a given way to load local variables. -/
def runWith (load : Int64 → UInt8 → Frame.Action Value) :
    Effect → Frame.Action Unit
  | .load index size => do
    let v ← load index size
    Frame.push v
  | .read index => do
    let _ ← load index 1
  | e => e.run

theorem run_eq_runWith (e : Effect) : e.run = e.runWith Frame.loadLocal := by
  cases e <;> rfl

/-- The way to load local variables that reads their contents as given. -/
def LoadsBy (load : Int64 → UInt8 → Frame.Action Value)
    (read : UInt8 → Value → Option Value) : Prop :=
  ∀ index size f g v, load index size f = .ok v g ↔
    g = f ∧ (f.local? index).bind (read size) = some v

variable {load : Int64 → UInt8 → Frame.Action Value}
  {read : UInt8 → Value → Option Value} {e : Effect}
  {f : Frame} {taken given rest locals : List Value}

theorem LoadsBy.load_eq (hload : LoadsBy load read) {index : Int64}
    {size : UInt8} {v w : Value} (hindex : 0 ≤ index.toInt)
    (hv : f.locals[index.toInt.toNat]? = some v)
    (hread : read size v = some w) :
    load index size f = .ok w f := by
  refine (hload index size f f w).mpr ⟨rfl, ?_⟩
  rw [Frame.local?_eq_some_iff.mpr ⟨hindex, hv⟩]
  exact hread

theorem LoadsBy.exists_local (hload : LoadsBy load read) {index : Int64}
    {size : UInt8} {w : Value} {g : Frame} (h : load index size f = .ok w g) :
    g = f ∧ ∃ v, 0 ≤ index.toInt ∧
      f.locals[index.toInt.toNat]? = some v ∧ read size v = some w := by
  obtain ⟨rfl, hbind⟩ := (hload index size f g w).mp h
  obtain ⟨v, hlocal, hread⟩ := Option.bind_eq_some_iff.mp hbind
  obtain ⟨hindex, hv⟩ := Frame.local?_eq_some_iff.mp hlocal
  exact ⟨rfl, v, hindex, hv, hread⟩

/-- An effect that has an exchange runs and leaves the given entries, unless
they overflow the stack. -/
theorem run_of_exchange (hload : LoadsBy load read)
    (hx : Exchange read f.locals e taken given locals)
    (hstack : f.stack = taken ++ rest) (hgiven : ∀ v ∈ given, v.Stackable) :
    ((f.withLocals locals).restack rest (f.slots - slotCount taken)).Lands given
      (e.runWith load f) := by
  have hpush : ∀ (g : Frame) (vs : List Value), vs.reverse = given →
      g.Lands given (Frame.pushAll vs g) := by
    rintro g vs rfl
    exact Frame.pushAll_lands (fun v hv => hgiven v (by simpa using hv)) g
  cases hx with
  | @consume sizes result taken hsizes =>
      have hpops :=
        Frame.popSizes_eq_ok_iff.mpr ⟨taken, rest, hsizes, hstack, rfl⟩
      cases result with
      | none =>
          change Frame.Lands _ _ ((Frame.popSizes sizes >>= fun _ => pure ()) f)
          rw [Frame.bind_of_ok hpops]
          exact hpush _ [] rfl
      | some v =>
          change Frame.Lands _ _
            ((Frame.popSizes sizes >>= fun _ => Frame.push v) f)
          rw [Frame.bind_of_ok hpops, Frame.push_eq_pushAll]
          exact hpush _ [v] rfl
  | @drop top taken hfits =>
      have htake :=
        Block.take_eq_ok_iff.mpr ⟨taken, rest, hfits, hstack, rfl, rfl⟩
      change Frame.Lands _ _ ((top.take >>= fun _ => pure ()) f)
      rw [Frame.bind_of_ok htake]
      exact hpush _ [] rfl
  | @copy top taken hfits =>
      have htake :=
        Block.take_eq_ok_iff.mpr ⟨taken, rest, hfits, hstack, rfl, rfl⟩
      change Frame.Lands _ _ ((top.take >>= fun a => Frame.pushAll (a ++ a)) f)
      rw [Frame.bind_of_ok htake]
      exact hpush _ _ (by simp)
  | @copyUnder top below a b ha hb =>
      rw [List.append_assoc] at hstack
      have hfirst :=
        Block.take_eq_ok_iff.mpr ⟨a, b ++ rest, ha, hstack, rfl, rfl⟩
      have hsecond := Block.take_eq_ok_iff.mpr ⟨b, rest, hb,
        Frame.restack_stack f (b ++ rest) (f.slots - slotCount a), rfl, rfl⟩
      change Frame.Lands _ _ ((top.take >>= fun a =>
        below.take >>= fun b => Frame.pushAll (a ++ b ++ a)) f)
      rw [Frame.bind_of_ok hfirst, Frame.bind_of_ok hsecond, slotCount_append,
        ← Nat.sub_sub]
      exact hpush _ _ (by simp)
  | @swap a b ha hb =>
      rw [List.append_assoc] at hstack
      have hfirst :=
        Block.take_eq_ok_iff.mpr ⟨a, b ++ rest, ha, hstack, rfl, rfl⟩
      have hsecond := Block.take_eq_ok_iff.mpr ⟨b, rest, hb,
        Frame.restack_stack f (b ++ rest) (f.slots - slotCount a), rfl, rfl⟩
      change Frame.Lands _ _ ((Block.one.take >>= fun a =>
        Block.one.take >>= fun b => Frame.pushAll (a ++ b)) f)
      rw [Frame.bind_of_ok hfirst, Frame.bind_of_ok hsecond, slotCount_append,
        ← Nat.sub_sub]
      exact hpush _ _ (by simp)
  | @load index size v w hindex hv hread =>
      rw [List.nil_append] at hstack
      subst hstack
      change Frame.Lands _ _ ((load index size >>= fun v => Frame.push v) f)
      rw [Frame.bind_of_ok (hload.load_eq hindex hv hread),
        Frame.push_eq_pushAll]
      exact hpush f [w] rfl
  | @store index size v hsize hadmits =>
      have hpop := Frame.popSized_eq_ok_iff.mpr ⟨hsize, rest, hstack, rfl⟩
      refine Or.inl ⟨Or.inl rfl, (Frame.bind_of_ok hpop).trans ?_⟩
      exact Frame.setLocal_eq_ok_iff.mpr ⟨hadmits, rfl⟩
  | @read index v w hindex hv hread =>
      rw [List.nil_append] at hstack
      subst hstack
      change Frame.Lands _ _ ((load index 1 >>= fun _ => pure ()) f)
      rw [Frame.bind_of_ok (hload.load_eq hindex hv hread)]
      exact hpush f [] rfl
  | @recast v hsize =>
      have hpop := Frame.popSized_eq_ok_iff.mpr ⟨hsize, rest, hstack, rfl⟩
      change Frame.Lands _ _ ((Frame.popSized 1 >>= fun v => Frame.push v) f)
      rw [Frame.bind_of_ok hpop, Frame.push_eq_pushAll]
      exact hpush _ [v] rfl

/-- An effect that runs has an exchange. -/
theorem exists_exchange_of_run (hload : LoadsBy load read) {after : Frame}
    (h : e.runWith load f = .ok () after) :
    ∃ taken given rest locals, Exchange read f.locals e taken given locals ∧
      f.stack = taken ++ rest ∧ ∀ v ∈ given, v.Stackable := by
  cases e with
  | consume sizes result =>
      cases result with
      | none =>
          change (Frame.popSizes sizes >>= fun _ => pure ()) f = _ at h
          obtain ⟨_, g, hpops, -⟩ := Frame.bind_eq_ok_iff.mp h
          obtain ⟨taken, rest, hsizes, hstack, -⟩ :=
            Frame.popSizes_eq_ok_iff.mp hpops
          exact ⟨taken, [], rest, _, .consume hsizes, hstack, by simp⟩
      | some v =>
          change (Frame.popSizes sizes >>= fun _ => Frame.push v) f = _ at h
          obtain ⟨_, g, hpops, hpush⟩ := Frame.bind_eq_ok_iff.mp h
          obtain ⟨taken, rest, hsizes, hstack, -⟩ :=
            Frame.popSizes_eq_ok_iff.mp hpops
          refine ⟨taken, [v], rest, _, .consume hsizes, hstack, ?_⟩
          simpa using Frame.stackable_of_push hpush
  | shuffle s =>
      cases s with
      | drop top =>
          change (top.take >>= fun _ => pure ()) f = _ at h
          obtain ⟨_, g, htake, -⟩ := Frame.bind_eq_ok_iff.mp h
          obtain ⟨taken, rest, hfits, hstack, -, -⟩ :=
            Block.take_eq_ok_iff.mp htake
          exact ⟨taken, [], rest, _, .drop hfits, hstack, by simp⟩
      | copy top =>
          change (top.take >>= fun a => Frame.pushAll (a ++ a)) f = _ at h
          obtain ⟨a, g, htake, hpush⟩ := Frame.bind_eq_ok_iff.mp h
          obtain ⟨taken, rest, hfits, hstack, rfl, -⟩ :=
            Block.take_eq_ok_iff.mp htake
          refine ⟨taken, taken ++ taken, rest, _, .copy hfits, hstack, ?_⟩
          simpa using Frame.stackable_of_pushAll hpush
      | copyUnder top below =>
          change (top.take >>= fun a =>
            below.take >>= fun b => Frame.pushAll (a ++ b ++ a)) f = _ at h
          obtain ⟨_, g, hfirst, h⟩ := Frame.bind_eq_ok_iff.mp h
          obtain ⟨_, g', hsecond, hpush⟩ := Frame.bind_eq_ok_iff.mp h
          obtain ⟨a, rest, ha, hstack, rfl, rfl⟩ :=
            Block.take_eq_ok_iff.mp hfirst
          obtain ⟨b, rest', hb, hrest, rfl, -⟩ :=
            Block.take_eq_ok_iff.mp hsecond
          rw [Frame.restack_stack] at hrest
          subst hrest
          refine ⟨a ++ b, a ++ b ++ a, rest', _, .copyUnder ha hb, ?_, ?_⟩
          · rw [hstack, List.append_assoc]
          · have hstackable := Frame.stackable_of_pushAll hpush
            intro v hv
            exact hstackable v (by simpa using hv)
      | swap =>
          change (Block.one.take >>= fun a =>
            Block.one.take >>= fun b => Frame.pushAll (a ++ b)) f = _ at h
          obtain ⟨_, g, hfirst, h⟩ := Frame.bind_eq_ok_iff.mp h
          obtain ⟨_, g', hsecond, hpush⟩ := Frame.bind_eq_ok_iff.mp h
          obtain ⟨a, rest, ha, hstack, rfl, rfl⟩ :=
            Block.take_eq_ok_iff.mp hfirst
          obtain ⟨b, rest', hb, hrest, rfl, -⟩ :=
            Block.take_eq_ok_iff.mp hsecond
          rw [Frame.restack_stack] at hrest
          subst hrest
          refine ⟨a ++ b, b ++ a, rest', _, .swap ha hb, ?_, ?_⟩
          · rw [hstack, List.append_assoc]
          · have hstackable := Frame.stackable_of_pushAll hpush
            intro v hv
            exact hstackable v (by simpa [or_comm] using hv)
  | load index size =>
      change (load index size >>= fun v => Frame.push v) f = _ at h
      obtain ⟨w, g, hloaded, hpush⟩ := Frame.bind_eq_ok_iff.mp h
      obtain ⟨-, v, hindex, hv, hread⟩ := hload.exists_local hloaded
      refine ⟨[], [w], f.stack, _, .load hindex hv hread, rfl, ?_⟩
      simpa using Frame.stackable_of_push hpush
  | store index size =>
      change (Frame.popSized size >>= fun v => Frame.setLocal index v) f = _
        at h
      obtain ⟨v, g, hpop, hset⟩ := Frame.bind_eq_ok_iff.mp h
      obtain ⟨hsize, rest, hstack, rfl⟩ := Frame.popSized_eq_ok_iff.mp hpop
      obtain ⟨hadmits, -⟩ := Frame.setLocal_eq_ok_iff.mp hset
      exact ⟨[v], [], rest, _, .store hsize hadmits, hstack, by simp⟩
  | read index =>
      change (load index 1 >>= fun _ => pure ()) f = _ at h
      obtain ⟨w, g, hloaded, -⟩ := Frame.bind_eq_ok_iff.mp h
      obtain ⟨-, v, hindex, hv, hread⟩ := hload.exists_local hloaded
      exact ⟨[], [], f.stack, _, .read hindex hv hread, rfl, by simp⟩
  | recast =>
      change (Frame.popSized 1 >>= fun v => Frame.push v) f = _ at h
      obtain ⟨v, g, hpop, hpush⟩ := Frame.bind_eq_ok_iff.mp h
      obtain ⟨hsize, rest, hstack, -⟩ := Frame.popSized_eq_ok_iff.mp hpop
      refine ⟨[v], [v], rest, _, .recast hsize, hstack, ?_⟩
      simpa using Frame.stackable_of_push hpush

end Effect
end Nullness
