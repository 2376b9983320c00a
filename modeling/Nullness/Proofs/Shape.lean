import Nullness.Analysis.Basic
import Nullness.Proofs.Entry

/-!
# Shapes of frames

Whether an operation on a frame succeeds depends on the sizes of its slots, and
on which local variables are set, but on no other nullability.  The shape of a
frame is this part of it.

Operations on frames of one shape end in the same error, or in frames of one
shape.  This is shown for one operation on a frame after the other, and then for
the transfer function, for merges, for the frames of exception handlers and for
the entry frame of a method.
-/

namespace Nullness

/-- Two computations that agree up to a view of their results. -/
theorem map_eq_map_cases {ε α β : Type} {view : α → β} {x y : Except ε α}
    (h : x.map view = y.map view) :
    (∃ a b, x = .ok a ∧ y = .ok b ∧ view a = view b) ∨
      ∃ e, x = .error e ∧ y = .error e := by
  cases x with
  | ok a =>
      cases y with
      | ok b => exact Or.inl ⟨a, b, rfl, rfl, by simpa [Except.map] using h⟩
      | error e => cases h
  | error e =>
      cases y with
      | ok b => cases h
      | error e' =>
          cases h
          exact Or.inr ⟨e, rfl, rfl⟩

namespace Value

/-- What decides how a content can be used: its size, and whether it is the
content of a local variable that is not set. -/
structure Kind where
  size : UInt8
  unset : Bool
  deriving DecidableEq, Repr

/-- The kind of a content. -/
def kind (v : Value) : Kind := ⟨v.size, v.isEmpty⟩

@[simp] theorem kind_size (v : Value) : v.kind.size = v.size := rfl

@[simp] theorem kind_unset (v : Value) : v.kind.unset = v.isEmpty := rfl

theorem kind_eq_iff {v w : Value} :
    v.kind = w.kind ↔ v.size = w.size ∧ v.isEmpty = w.isEmpty := by
  simp [kind]

theorem size_eq_of_kind_eq {v w : Value} (h : v.kind = w.kind) :
    v.size = w.size :=
  (kind_eq_iff.mp h).1

/-- The kind of the merge of two contents. -/
def Kind.merge (k l : Kind) : Kind :=
  if k = l then k
  else if k.size = 0 ∨ l.size = 0 then ⟨0, false⟩
  else if k.unset then l
  else if l.unset then k
  else ⟨0, false⟩

/-- Contents of one kind merge to a content of that kind. -/
theorem kind_merge_of_kind_eq {v w : Value} (h : v.kind = w.kind) :
    (v.merge w).kind = v.kind := by
  obtain ⟨hsize, hunset⟩ := kind_eq_iff.mp h
  rw [merge]
  split_ifs with hvw hconflict hv hw hne
  · rfl
  · have hzero : v.size = 0 := by simpa [isConflict, hsize] using hconflict
    simp [kind, conflict, isEmpty, hzero]
  · exact h.symm
  · rfl
  · exact absurd hsize hne
  · have hknown : v.nullability ≠ .unknown := by
      intro hunknown
      have hzero : w.size = 0 := by simpa [isEmpty, hunknown, hsize] using hv
      exact hconflict (by simp [isConflict, hzero])
    have hmerged : v.nullability.merge w.nullability ≠ .unknown :=
      Nullability.merge_ne_unknown hknown
    simp [kind, isEmpty, hknown, hmerged]

theorem kind_merge (v w : Value) : (v.merge w).kind = v.kind.merge w.kind := by
  by_cases hsame : v.kind = w.kind
  · rw [Kind.merge, if_pos hsame, kind_merge_of_kind_eq hsame]
  · have hvw : v ≠ w := by
      rintro rfl
      exact hsame rfl
    have hconflict : (v.isConflict || w.isConflict) = true ↔
        v.kind.size = 0 ∨ w.kind.size = 0 := by
      simp [isConflict]
    rw [Kind.merge, if_neg hsame, merge, if_neg hvw]
    by_cases hsizes : v.kind.size = 0 ∨ w.kind.size = 0
    · rw [if_pos (hconflict.mpr hsizes), if_pos hsizes]
      rfl
    · rw [if_neg (mt hconflict.mp hsizes), if_neg hsizes]
      change _ = if v.isEmpty then w.kind else if w.isEmpty then v.kind else _
      by_cases hv : v.isEmpty
      · rw [if_pos hv, if_pos hv]
      · rw [if_neg hv, if_neg hv]
        by_cases hw : w.isEmpty
        · rw [if_pos hw, if_pos hw]
        · -- Two set contents of one size would be of one kind.
          have hne : v.size ≠ w.size := by
            intro hsize
            exact hsame (kind_eq_iff.mpr ⟨hsize, by simp [hv, hw]⟩)
          rw [if_neg hw, if_neg hw, if_pos hne]
          rfl

/-- Two contents of one kind. -/
abbrev Alike (v w : Value) : Prop := v.kind = w.kind

/-- Two lists of contents of the same kinds. -/
abbrev AllAlike (vs ws : List Value) : Prop := vs.map kind = ws.map kind

end Value

open Nullness.Value (Alike AllAlike)

namespace Frame

/-- The kinds of the slots of a frame, and its bookkeeping. -/
structure Shape where
  locals : List Value.Kind
  stack : List Value.Kind
  slots : Nat
  maxStack : Nat
  deriving DecidableEq, Repr

/-- The shape of a frame. -/
def shape (f : Frame) : Shape where
  locals := f.locals.map Value.kind
  stack := f.stack.map Value.kind
  slots := f.slots
  maxStack := f.maxStack

variable {f g f' g' : Frame}

theorem shape_eq_iff :
    f.shape = g.shape ↔
      f.locals.map Value.kind = g.locals.map Value.kind ∧
        f.stack.map Value.kind = g.stack.map Value.kind ∧
          f.slots = g.slots ∧ f.maxStack = g.maxStack := by
  simp [shape]

theorem length_eq_of_map_kind {vs ws : List Value} (h : AllAlike vs ws) :
    vs.length = ws.length := by
  simpa using congrArg List.length h

/-! ## Operations on a frame -/

/-- What an operation leads to in two frames of one shape: the same error, or
related results and again frames of one shape. -/
inductive Agree {α : Type} (R : α → α → Prop) :
    EStateM.Result (Failure Error) Frame α →
      EStateM.Result (Failure Error) Frame α → Prop
  | ok {x y : α} {f g : Frame} (hresult : R x y) (hshape : f.shape = g.shape) :
      Agree R (.ok x f) (.ok y g)
  | error (failure : Failure Error) (f g : Frame) :
      Agree R (.error failure f) (.error failure g)

theorem Agree.bind {α β : Type} {R : α → α → Prop} {S : β → β → Prop}
    {a a' : Action α} {b b' : α → Action β} (h : Agree R (a f) (a' g))
    (hnext : ∀ x y f' g', R x y → f'.shape = g'.shape →
      Agree S (b x f') (b' y g')) :
    Agree S ((a >>= b) f) ((a' >>= b') g) := by
  generalize ha : a f = result at h
  generalize ha' : a' g = result' at h
  cases h with
  | ok hresult hshape =>
      rw [bind_of_ok ha, bind_of_ok ha']
      exact hnext _ _ _ _ hresult hshape
  | error failure =>
      rw [bind_of_error ha, bind_of_error ha']
      exact .error failure _ _

theorem agree_refuse {α : Type} {R : α → α → Prop} (e : Error) (f g : Frame) :
    Agree R (refuse e f) (refuse e g) :=
  .error (.error e) f g

section Operations

variable (h : f.shape = g.shape)

include h

theorem agree_pop : Agree Alike (pop f) (pop g) := by
  obtain ⟨hlocals, hstack, hslots, hmax⟩ := shape_eq_iff.mp h
  rw [pop, pop]
  cases hf : f.stack with
  | nil =>
      cases hg : g.stack with
      | nil => exact agree_refuse _ f g
      | cons w ws => simp [hf, hg] at hstack
  | cons v vs =>
      cases hg : g.stack with
      | nil => simp [hf, hg] at hstack
      | cons w ws =>
          rw [hf, hg, List.map_cons, List.map_cons, List.cons.injEq] at hstack
          obtain ⟨hhead, htail⟩ := hstack
          have hsize : v.size = w.size := Value.size_eq_of_kind_eq hhead
          exact .ok hhead (shape_eq_iff.mpr
            ⟨hlocals, htail, by simp [hslots, hsize], hmax⟩)

theorem agree_popSized (size : UInt8) :
    Agree Alike (popSized size f) (popSized size g) := by
  apply (agree_pop h).bind
  intro v w f' g' hvw h'
  have hsize : v.size = w.size := Value.size_eq_of_kind_eq hvw
  rw [hsize]
  split_ifs
  · exact agree_refuse _ f' g'
  · exact .ok hvw h'

theorem agree_push {v w : Value} (hvw : Alike v w) :
    Agree (fun _ _ => True) (push v f) (push w g) := by
  obtain ⟨hlocals, hstack, hslots, hmax⟩ := shape_eq_iff.mp h
  have hsize : v.size = w.size := Value.size_eq_of_kind_eq hvw
  rw [push, push, hsize, hslots, hmax]
  split_ifs
  · exact agree_refuse _ f g
  · exact agree_refuse _ f g
  · exact .ok trivial (shape_eq_iff.mpr
      ⟨hlocals, by simp [hstack, hvw], rfl, rfl⟩)

/-- Local variables at one index are of one kind. -/
theorem map_kind_local? (index : Int64) :
    (f.local? index).map Value.kind = (g.local? index).map Value.kind := by
  obtain ⟨hlocals, -⟩ := shape_eq_iff.mp h
  rw [local?, local?]
  split_ifs
  · rfl
  · rw [← List.getElem?_map, ← List.getElem?_map, hlocals]

theorem agree_loadLocal (index : Int64) (size : UInt8) :
    Agree Alike (loadLocal index size f) (loadLocal index size g) := by
  have hlength := length_eq_of_map_kind (shape_eq_iff.mp h).1
  have hkinds := map_kind_local? h index
  rw [loadLocal, loadLocal, hlength]
  cases hf : f.local? index with
  | none =>
      cases hg : g.local? index with
      | none => exact agree_refuse _ f g
      | some w => simp [hf, hg] at hkinds
  | some v =>
      cases hg : g.local? index with
      | none => simp [hf, hg] at hkinds
      | some w =>
          have hvw : Alike v w := by simpa [hf, hg] using hkinds
          obtain ⟨hsize, hunset⟩ := Value.kind_eq_iff.mp hvw
          dsimp only
          rw [Value.isConflict, Value.isConflict, hsize, hunset]
          split_ifs
          · exact agree_refuse _ f g
          · exact agree_refuse _ f g
          · exact .ok hvw h

omit h in
theorem map_kind_storeAt {locals locals' : List Value} {v w : Value}
    (hlocals : AllAlike locals locals') (hvw : Alike v w) (index : Nat) :
    AllAlike (storeAt locals index v) (storeAt locals' index w) := by
  have hwide : (locals[index - 1]?).any (·.size = 2) =
      (locals'[index - 1]?).any (·.size = 2) := by
    have hget : (locals[index - 1]?).map Value.kind =
        (locals'[index - 1]?).map Value.kind := by
      rw [← List.getElem?_map, ← List.getElem?_map, hlocals]
    have hany : ∀ o : Option Value, o.any (·.size = 2) =
        (o.map Value.kind).any (·.size = 2) := by
      intro o
      cases o <;> rfl
    rw [hany, hany, hget]
  have hsize : v.size = w.size := Value.size_eq_of_kind_eq hvw
  rw [AllAlike, storeAt, storeAt, hwide, hsize]
  split_ifs <;> simp [List.map_set, hlocals, hvw]

theorem agree_setLocal (index : Int64) {v w : Value} (hvw : Alike v w) :
    Agree (fun _ _ => True) (setLocal index v f) (setLocal index w g) := by
  obtain ⟨hlocals, hstack, hslots, hmax⟩ := shape_eq_iff.mp h
  have hlength := length_eq_of_map_kind hlocals
  have hsize : v.size = w.size := Value.size_eq_of_kind_eq hvw
  rw [setLocal, setLocal, hsize, hlength]
  split_ifs
  · exact agree_refuse _ f g
  · exact .ok trivial (shape_eq_iff.mpr
      ⟨map_kind_storeAt hlocals hvw _, hstack, hslots, hmax⟩)
  · exact .error _ f g

theorem agree_popSizes (sizes : List UInt8) :
    Agree (fun _ _ => True) (popSizes sizes f) (popSizes sizes g) := by
  induction sizes generalizing f g with
  | nil => exact .ok trivial h
  | cons size sizes ih =>
      apply (agree_popSized h size).bind
      intro _ _ f' g' _ h'
      exact ih h'

theorem agree_pushAll {vs ws : List Value} (hvs : AllAlike vs ws) :
    Agree (fun _ _ => True) (pushAll vs f) (pushAll ws g) := by
  induction vs generalizing ws f g with
  | nil =>
      cases ws with
      | nil => exact .ok trivial h
      | cons w ws => simp [AllAlike] at hvs
  | cons v vs ih =>
      cases ws with
      | nil => simp [AllAlike] at hvs
      | cons w ws =>
          rw [AllAlike, List.map_cons, List.map_cons, List.cons.injEq] at hvs
          apply (agree_push h hvs.1).bind
          intro _ _ f' g' _ h'
          exact ih h' hvs.2

end Operations

end Frame

/-! ## Effects and steps -/

open Nullness.Frame (Agree)

variable {f g : Frame}

theorem Block.agree_take (block : Block) (h : f.shape = g.shape) :
    Agree AllAlike (block.take f) (block.take g) := by
  cases block with
  | one =>
      apply (Frame.agree_popSized h 1).bind
      intro v w f' g' hvw h'
      exact .ok (by simp [AllAlike, hvw]) h'
  | two =>
      apply (Frame.agree_pop h).bind
      intro v w f' g' hvw h'
      have hsize : v.size = w.size := Value.size_eq_of_kind_eq hvw
      rw [hsize]
      split_ifs
      · exact .ok (by simp [AllAlike, hvw]) h'
      · apply (Frame.agree_popSized h' 1).bind
        intro v' w' f'' g'' hvw' h''
        exact .ok (by simp [AllAlike, hvw, hvw']) h''

theorem Shuffle.agree_run (shuffle : Shuffle) (h : f.shape = g.shape) :
    Agree (fun _ _ => True) (shuffle.run f) (shuffle.run g) := by
  cases shuffle with
  | drop top =>
      apply (top.agree_take h).bind
      intro _ _ f' g' _ h'
      exact .ok trivial h'
  | copy top =>
      apply (top.agree_take h).bind
      intro a a' f' g' ha h'
      apply Frame.agree_pushAll h'
      simp [AllAlike, ha]
  | copyUnder top below =>
      apply (top.agree_take h).bind
      intro a a' f' g' ha h'
      apply (below.agree_take h').bind
      intro b b' f'' g'' hb h''
      apply Frame.agree_pushAll h''
      simp [AllAlike, ha, hb]
  | swap =>
      apply (Block.one.agree_take h).bind
      intro a a' f' g' ha h'
      apply (Block.one.agree_take h').bind
      intro b b' f'' g'' hb h''
      apply Frame.agree_pushAll h''
      simp [AllAlike, ha, hb]

theorem Effect.agree_run (e : Effect) (h : f.shape = g.shape) :
    Agree (fun _ _ => True) (e.run f) (e.run g) := by
  cases e with
  | consume sizes result =>
      apply (Frame.agree_popSizes h sizes).bind
      intro _ _ f' g' _ h'
      cases result with
      | none => exact .ok trivial h'
      | some v => exact Frame.agree_push h' rfl
  | shuffle s => exact s.agree_run h
  | load index size =>
      apply (Frame.agree_loadLocal h index size).bind
      intro v w f' g' hvw h'
      exact Frame.agree_push h' hvw
  | store index size =>
      apply (Frame.agree_popSized h size).bind
      intro v w f' g' hvw h'
      exact Frame.agree_setLocal h' index hvw
  | read index =>
      apply (Frame.agree_loadLocal h index 1).bind
      intro _ _ f' g' _ h'
      exact .ok trivial h'
  | recast =>
      apply (Frame.agree_popSized h 1).bind
      intro v w f' g' hvw h'
      exact Frame.agree_push h' hvw

/-- Frames of one shape have steps to frames of one shape, or fail alike. -/
theorem Transfer.map_shape_step (h : f.shape = g.shape) (insn : Instruction) :
    (step f insn).map Frame.shape = (step g insn).map Frame.shape := by
  rw [step, step]
  cases effect insn with
  | error e => rfl
  | ok e =>
      have hrun := e.agree_run h
      dsimp only
      generalize e.run f = result at hrun
      generalize e.run g = result' at hrun
      cases hrun with
      | ok _ hshape => simp [Except.map, hshape]
      | error failure => rfl

/-! ## Merges -/

namespace Frame

variable {f g f' g' : Frame}

theorem sizeClash?_congr {vs ws vs' ws' : List Value} (entry : Nat)
    (hvs : AllAlike vs vs') (hws : AllAlike ws ws') :
    sizeClash? entry vs ws = sizeClash? entry vs' ws' := by
  induction vs generalizing entry vs' ws ws' with
  | nil =>
      have hnil : vs' = [] := by simpa [AllAlike] using hvs
      rw [hnil, sizeClash?, sizeClash?]
      · simp
      · simp
  | cons v vs ih =>
      obtain ⟨v', vs', rfl, hv, htail⟩ := List.map_eq_cons_iff.mp hvs.symm
      cases ws with
      | nil =>
          have hnil : ws' = [] := by simpa [AllAlike] using hws
          rw [hnil, sizeClash?, sizeClash?]
          · simp
          · simp
      | cons w ws =>
          obtain ⟨w', ws', rfl, hw, hwtail⟩ := List.map_eq_cons_iff.mp hws.symm
          have hvsize : v'.size = v.size := Value.size_eq_of_kind_eq hv
          have hwsize : w'.size = w.size := Value.size_eq_of_kind_eq hw
          rw [sizeClash?, sizeClash?, hvsize, hwsize,
            ih (entry + 1) htail.symm hwtail.symm]

theorem map_kind_zipWith_merge (vs ws : List Value) :
    (List.zipWith Value.merge vs ws).map Value.kind =
      List.zipWith Value.Kind.merge (vs.map Value.kind)
        (ws.map Value.kind) := by
  rw [List.map_zipWith, List.zipWith_map]
  simp only [Value.kind_merge]

/-- Frames of one shape merge to frames of one shape, or fail to merge alike.
Whether the merge is a change is not decided by the shapes. -/
theorem map_shape_merge (hf : f.shape = f'.shape) (hg : g.shape = g'.shape) :
    (f.merge g).map (·.1.shape) = (f'.merge g').map (·.1.shape) := by
  obtain ⟨hlocals, hstack, hslots, hmax⟩ := shape_eq_iff.mp hf
  obtain ⟨hlocals', hstack', -, -⟩ := shape_eq_iff.mp hg
  have hclash : sizeClash? 0 f.stack.reverse g.stack.reverse =
      sizeClash? 0 f'.stack.reverse g'.stack.reverse := by
    apply sizeClash?_congr
    · simp [AllAlike, List.map_reverse, hstack]
    · simp [AllAlike, List.map_reverse, hstack']
  rw [merge, merge, length_eq_of_map_kind hlocals,
    length_eq_of_map_kind hlocals', length_eq_of_map_kind hstack,
    length_eq_of_map_kind hstack', hclash]
  split_ifs
  · rfl
  · rfl
  · cases sizeClash? 0 f'.stack.reverse g'.stack.reverse with
    | some clash => rfl
    | none =>
        refine congrArg Except.ok (shape_eq_iff.mpr ⟨?_, ?_, hslots, hmax⟩)
        · rw [map_kind_zipWith_merge, map_kind_zipWith_merge, hlocals, hlocals']
        · rw [map_kind_zipWith_merge, map_kind_zipWith_merge, hstack, hstack']

theorem shape_clearStack (h : f.shape = g.shape) :
    f.clearStack.shape = g.clearStack.shape := by
  obtain ⟨hlocals, -, -, hmax⟩ := shape_eq_iff.mp h
  exact shape_eq_iff.mpr ⟨hlocals, rfl, rfl, hmax⟩

end Frame

/-! ## Handlers and the entry frame -/

namespace Analysis

theorem map_shape_handlerFrame {before after before' after' : Frame}
    (hbefore : before.shape = before'.shape)
    (hafter : after.shape = after'.shape) :
    (handlerFrame before after).map Frame.shape =
      (handlerFrame before' after').map Frame.shape := by
  have hmerge := Frame.map_shape_merge (Frame.shape_clearStack hbefore)
    (Frame.shape_clearStack hafter)
  rw [handlerFrame, handlerFrame]
  rcases map_eq_map_cases hmerge with
    ⟨merged, merged', hok, hok', hshape⟩ | ⟨e, herror, herror'⟩
  · rw [hok, hok']
    have hpush :=
      Frame.agree_push hshape (show Alike .nonNull .nonNull from rfl)
    dsimp only
    generalize Frame.push .nonNull merged.1 = pushed at hpush
    generalize Frame.push .nonNull merged'.1 = pushed' at hpush
    cases hpush with
    | ok _ hpushed => exact congrArg Except.ok hpushed
    | error failure => rfl
  · rw [herror, herror']

/-- Nullabilities of parameters do not change the kind of their values. -/
theorem kind_parameterValue (assumed assumed' declared declared' : Nullability)
    (t : Descriptor.FieldType) :
    (parameterValue assumed declared t).kind =
      (parameterValue assumed' declared' t).kind := by
  have hkind : ∀ n : Nullability, n ≠ .unknown →
      (Value.ref n).kind = ⟨1, false⟩ := by
    intro n hn
    simp [Value.kind, Value.ref, Value.isEmpty, hn]
  rw [parameterValue, parameterValue]
  split_ifs
  · rw [hkind _ (effectiveNullability_ne_unknown _ _),
      hkind _ (effectiveNullability_ne_unknown _ _)]
  · rfl

theorem map_shape_storeLocal {v w : Value} (h : f.shape = g.shape)
    (hvw : Alike v w) (index : Nat) :
    (storeLocal f index v).map Frame.shape =
      (storeLocal g index w).map Frame.shape := by
  have hset := Frame.agree_setLocal h (Int64.ofNat index) hvw
  rw [storeLocal, storeLocal]
  generalize Frame.setLocal (Int64.ofNat index) v f = result at hset
  generalize Frame.setLocal (Int64.ofNat index) w g = result' at hset
  cases hset with
  | ok _ hshape => simp [Except.map, hshape]
  | error failure => rfl

variable {m : Method} {params : List Nullability}
  {assumed assumed' : Nullability}

theorem map_shape_storeParameters {types : List Descriptor.FieldType}
    (h : f.shape = g.shape) (param index : Nat) :
    (storeParameters m assumed param index f types).map Frame.shape =
      (storeParameters { m with params := params } assumed' param index g
        types).map Frame.shape := by
  induction types generalizing f g param index with
  | nil => exact congrArg Except.ok h
  | cons t types ih =>
      have hstore :=
        map_shape_storeLocal h (kind_parameterValue assumed assumed'
        (m.paramAt param) (Method.paramAt { m with params := params } param) t)
        index
      rw [storeParameters, storeParameters]
      rcases map_eq_map_cases hstore with
        ⟨f', g', hok, hok', hshape⟩ | ⟨failure, herror, herror'⟩
      · rw [hok, hok']
        exact ih hshape _ _
      · rw [herror, herror']

/-- The shape of the entry frame of a method does not depend on the
nullabilities of its parameters, and neither does whether there is one. -/
theorem map_shape_entryFrame :
    (entryFrame assumed m).map Frame.shape =
      (entryFrame assumed' { m with params := params }).map Frame.shape := by
  have hstore : ∀ {f g : Frame}, f.shape = g.shape → ∀ index types,
      (storeParameters m assumed 0 index f types).map Frame.shape =
        (storeParameters { m with params := params } assumed' 0 index g
          types).map Frame.shape :=
    fun h index _ => map_shape_storeParameters h 0 index
  rw [entryFrame, entryFrame]
  by_cases hbounds : m.maxStack.toInt < 0 ∨ m.maxLocals.toInt < 0
  · rw [if_pos hbounds, if_pos hbounds]
  · rw [if_neg hbounds, if_neg hbounds]
    cases Descriptor.parseMethodType m.desc with
    | error e => rfl
    | ok t =>
        have hslots : receiverSlots { m with params := params } =
            receiverSlots m := rfl
        dsimp only
        rw [hslots]
        by_cases hfit : m.maxLocals.toInt < (t.argSlots + receiverSlots m : Nat)
        · rw [if_pos hfit, if_pos hfit]
        · rw [if_neg hfit, if_neg hfit]
          by_cases hstatic : m.isStatic
          · rw [if_pos hstatic, if_pos hstatic]
            exact hstore rfl 0 t.args
          · rw [if_neg hstatic, if_neg hstatic]
            cases storeLocal (Frame.new m.maxLocals.toInt.toNat
                m.maxStack.toInt.toNat) 0 .nonNull with
            | error failure => rfl
            | ok f' => exact hstore rfl 1 t.args

end Analysis
end Nullness
