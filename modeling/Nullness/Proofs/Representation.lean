import Nullness.Proofs.LeastUpperBound
import Nullness.Proofs.WellFormed

/-!
# What every frame is like

A frame is not an arbitrary record.  Its slot count is the number of slots that
its stack takes, and within the bound; its stack entries take one or two slots
each; and a local variable of two slots is followed by an unusable one.  The
operations on frames keep this up whatever values and indices they are given,
also where they are refused halfway.

Frames are worked on in collections that grow: a frame is created with some
bounds or copied from another one, and every other operation changes one of the
frames there are.  The invariant is stated for the frame that one operation
leaves behind (`Preserves`), and carried from there through all operations on a
collection.
-/

namespace Nullness
namespace Frame

/-! ## The invariant -/

/-- What the operations on frames keep up, whatever values they are given. -/
structure Represented (f : Frame) : Prop where
  counted : f.Counted
  bound : f.maxStack ≤ 2 ^ 62
  stackable : ∀ v ∈ f.stack, v.Stackable
  paired : Paired f.locals

/-- The slot count can be kept as a 64-bit number: neither the sum that a push
compares with the bound nor the difference that a pop leaves is out of range. -/
structure CountsInWords (f : Frame) : Prop where
  push : ∀ v : Value, v.Stackable →
    (Int64.ofNat f.slots + Int64.ofNat v.size.toNat).toInt =
      f.slots + v.size.toNat
  pop : ∀ v rest, f.stack = v :: rest →
    (Int64.ofNat f.slots - Int64.ofNat v.size.toNat).toInt = slotCount rest

/-- A frame as it can be later on: still represented, with the bounds it was
created with. -/
structure Becomes (f g : Frame) : Prop where
  represented : g.Represented
  length_locals : g.locals.length = f.locals.length
  maxStack_eq : g.maxStack = f.maxStack

/-- The frame that an operation leaves behind, unless it crashes. -/
def left? {α : Type} : EStateM.Result (Failure Error) Frame α → Option Frame
  | .ok _ f => some f
  | .error (.error _) f => some f
  | .error .crash _ => none

/-- An operation leaves a represented frame behind, also where it is refused. -/
def Preserves {α : Type} (a : Action α) : Prop :=
  ∀ f g, f.Represented → left? (a f) = some g → f.Becomes g

variable {f g : Frame} {α β : Type}

theorem Represented.becomes (hf : f.Represented) : f.Becomes f := ⟨hf, rfl, rfl⟩

theorem Becomes.trans {h : Frame} (hfg : f.Becomes g) (hgh : g.Becomes h) :
    f.Becomes h :=
  ⟨hgh.represented, hgh.length_locals.trans hfg.length_locals,
    hgh.maxStack_eq.trans hfg.maxStack_eq⟩

theorem Represented.countsInWords (hf : f.Represented) : f.CountsInWords := by
  have hle := hf.counted.slots_le
  have hbound := hf.bound
  constructor
  · intro v hv
    have hsize : v.size.toNat ≤ 2 := by
      rcases hv with hv | hv <;> simp [hv]
    rw [Int64.toInt_add, Int64.toInt_ofNat_of_lt (by omega),
      Int64.toInt_ofNat_of_lt (by omega),
      Int.bmod_eq_of_le (by omega) (by omega)]
  · intro v rest hstack
    have hslots := hf.counted.slots_eq
    rw [hstack, slotCount_cons] at hslots
    rw [Int64.toInt_sub, Int64.toInt_ofNat_of_lt (by omega),
      Int64.toInt_ofNat_of_lt (by omega),
      Int.bmod_eq_of_le (by omega) (by omega)]
    omega

theorem represented_new {maxLocals maxStack : Nat} (h : maxStack ≤ 2 ^ 62) :
    (new maxLocals maxStack).Represented :=
  ⟨⟨rfl, Nat.zero_le _⟩, h, by simp [new], paired_replicate_empty maxLocals⟩

/-! ## The operations -/

theorem preserves_pure (a : α) : Preserves (pure a) := by
  intro f g hf h
  cases h
  exact hf.becomes

theorem preserves_refuse (e : Error) : Preserves (refuse e : Action α) := by
  intro f g hf h
  cases h
  exact hf.becomes

theorem Preserves.bind {a : Action α} {b : α → Action β} (ha : Preserves a)
    (hb : ∀ x, Preserves (b x)) : Preserves (a >>= b) := by
  intro f g hf h
  rcases hresult : a f with ⟨x, f'⟩ | ⟨failure, f'⟩
  · rw [bind_of_ok hresult] at h
    have hfirst : f.Becomes f' := ha f f' hf (by rw [hresult]; rfl)
    exact hfirst.trans (hb x f' g hfirst.represented h)
  · rw [bind_of_error hresult] at h
    refine ha f g hf ?_
    rw [hresult]
    cases failure <;> exact h

theorem preserves_pop : Preserves pop := by
  intro f g hf h
  rw [pop] at h
  cases hstack : f.stack with
  | nil =>
      rw [hstack] at h
      cases h
      exact hf.becomes
  | cons v rest =>
      rw [hstack] at h
      cases h
      have hslots := hf.counted.slots_eq
      have hle := hf.counted.slots_le
      have hstackable := hf.stackable
      rw [hstack, slotCount_cons] at hslots
      rw [hstack, List.forall_mem_cons] at hstackable
      refine ⟨⟨⟨?_, ?_⟩, hf.bound, hstackable.2, hf.paired⟩, rfl, rfl⟩
      · dsimp only
        omega
      · dsimp only
        omega

theorem preserves_popSized (size : UInt8) : Preserves (popSized size) := by
  refine preserves_pop.bind fun v => ?_
  split_ifs
  · exact preserves_refuse _
  · exact preserves_pure v

theorem preserves_popN (count : Nat) : Preserves (popN count) := by
  induction count with
  | zero => exact preserves_pure ()
  | succ count ih => exact (preserves_popSized 1).bind fun _ => ih

theorem preserves_push (v : Value) : Preserves (push v) := by
  intro f g hf h
  by_cases hv : v.Stackable
  · rw [push_of_stackable hv] at h
    split_ifs at h with hroom
    · cases h
      refine ⟨⟨⟨?_, hroom⟩, hf.bound,
        List.forall_mem_cons.mpr ⟨hv, hf.stackable⟩, hf.paired⟩, rfl, rfl⟩
      rw [restack_slots, restack_stack, slotCount_cons, hf.counted.slots_eq,
        Nat.add_comm]
    · cases h
      exact hf.becomes
  · rw [Value.Stackable, not_or] at hv
    rw [push, if_pos hv] at h
    exact preserves_refuse _ f g hf h

theorem preserves_clearStack : Preserves fun f => .ok () f.clearStack := by
  intro f g hf h
  cases h
  exact ⟨⟨⟨rfl, Nat.zero_le _⟩, hf.bound, by simp [clearStack], hf.paired⟩, rfl,
    rfl⟩

theorem preserves_setLocal (index : Int64) (v : Value) :
    Preserves (setLocal index v) := by
  intro f g hf h
  rw [setLocal] at h
  split_ifs at h with hrange hlast
  · exact preserves_refuse _ f g hf h
  · cases h
    exact ⟨⟨⟨hf.counted.slots_eq, hf.counted.slots_le⟩, hf.bound, hf.stackable,
      hf.paired.storeAt hlast⟩, length_storeAt .., rfl⟩
  · cases h

theorem Represented.join (hf : f.Represented) (hg : g.Represented)
    (hlocals : f.locals.length = g.locals.length)
    (hsizes : f.stack.map (·.size) = g.stack.map (·.size)) :
    f.Becomes (f.join g) := by
  have hentries := sizes_join hsizes
  refine ⟨⟨⟨?_, hf.counted.slots_le⟩, hf.bound, ?_,
    hf.paired.zipWith_merge hg.paired hlocals⟩, length_locals_join hlocals, rfl⟩
  · exact hf.counted.slots_eq.trans (slotCount_eq_of_sizes hentries).symm
  · intro v hv
    have hmem : v.size ∈ (f.join g).stack.map (·.size) := List.mem_map_of_mem hv
    rw [hentries] at hmem
    obtain ⟨u, hu, hsize⟩ := List.mem_map.mp hmem
    rw [Value.Stackable, ← hsize]
    exact hf.stackable u hu

theorem preserves_absorb (hg : g.Represented) : Preserves (absorb g) := by
  intro f f' hf h
  rw [absorb_eq] at h
  rcases hmerge : f.merge g with e | ⟨joined, changed⟩
  · rw [hmerge] at h
    cases h
    exact hf.becomes
  · rw [hmerge] at h
    cases h
    obtain ⟨hlocals, hsizes, rfl, -⟩ := merge_eq_ok_iff.mp hmerge
    exact hf.join hg hlocals hsizes

/-! ## Collections of frames -/

/-- A change of one of the frames of a collection. -/
inductive Change where
  | push (v : Value)
  | pop
  | popSized (size : UInt8)
  | popN (count : Int64)
  | clearStack
  | setLocal (index : Int64) (v : Value)
  /-- Merges another frame of the collection, or the frame itself. -/
  | merge (other : Nat)

/-- An operation on a collection of frames, which it names by their
positions. -/
inductive Operation where
  | new (maxLocals maxStack : Int64)
  | copy (pos : Nat)
  | change (pos : Nat) (change : Change)

/-- What a change does to its frame, unless the collection lacks the frame that
is merged. -/
def Change.action? (frames : List Frame) : Change → Option (Action Unit)
  | .push v => some (Frame.push v)
  | .pop => some do
    let _ ← Frame.pop
  | .popSized size => some do
    let _ ← Frame.popSized size
  | .popN count => some (Frame.popN count.toInt.toNat)
  | .clearStack => some fun f => .ok () f.clearStack
  | .setLocal index v => some (Frame.setLocal index v)
  | .merge other => (frames[other]?).map fun g => do
    let _ ← absorb g

namespace Operation

/-- The collection after an operation, whether it is refused or not.  There is
none if the operation crashes, or names a frame that the collection lacks. -/
def apply (frames : List Frame) : Operation → Option (List Frame)
  | .new maxLocals maxStack => do
    let f ← (ofBounds maxLocals maxStack).toOption
    return frames ++ [f]
  | .copy pos => do
    let f ← frames[pos]?
    return frames ++ [f]
  | .change pos made => do
    let f ← frames[pos]?
    let action ← made.action? frames
    let g ← left? (action f)
    return frames.set pos g

/-- The collection after several operations. -/
def applyAll (ops : List Operation) (frames : List Frame) :
    Option (List Frame) :=
  ops.foldlM apply frames

/-- Frames are created with bounds that are not negative, and with a stack bound
that leaves room to count slots in 64 bits. -/
def Admissible : Operation → Prop
  | .new maxLocals maxStack =>
    0 ≤ maxLocals.toInt ∧ 0 ≤ maxStack.toInt ∧ maxStack.toInt ≤ 2 ^ 62
  | _ => True

end Operation

/-- A collection as it can be later on: all its frames are represented, and
those that were there before have kept their bounds. -/
structure Grows (frames frames' : List Frame) : Prop where
  represented : ∀ f ∈ frames', f.Represented
  becomes : ∀ (pos : Nat) (f : Frame), frames[pos]? = some f →
    ∃ g, frames'[pos]? = some g ∧ f.Becomes g

variable {frames frames' frames'' : List Frame}

theorem Grows.refl (h : ∀ f ∈ frames, f.Represented) : Grows frames frames :=
  ⟨h, fun _ f hf => ⟨f, hf, (h f (List.mem_of_getElem? hf)).becomes⟩⟩

theorem Grows.trans (h : Grows frames frames') (h' : Grows frames' frames'') :
    Grows frames frames'' := by
  refine ⟨h'.represented, fun pos f hf => ?_⟩
  obtain ⟨g, hg, hfg⟩ := h.becomes pos f hf
  obtain ⟨g', hg', hgg'⟩ := h'.becomes pos g hg
  exact ⟨g', hg', hfg.trans hgg'⟩

theorem grows_append (h : ∀ f ∈ frames, f.Represented) (hf : f.Represented) :
    Grows frames (frames ++ [f]) := by
  constructor
  · rw [List.forall_mem_append, List.forall_mem_singleton]
    exact ⟨h, hf⟩
  · intro pos g hg
    refine ⟨g, ?_, (h g (List.mem_of_getElem? hg)).becomes⟩
    rw [List.getElem?_append_left (List.getElem?_eq_some_iff.mp hg).1, hg]

theorem grows_set {pos : Nat} (h : ∀ f ∈ frames, f.Represented)
    (hf : frames[pos]? = some f) (hfg : f.Becomes g) :
    Grows frames (frames.set pos g) := by
  constructor
  · intro x hx
    rcases List.mem_or_eq_of_mem_set hx with hx | rfl
    · exact h x hx
    · exact hfg.represented
  · intro other x hx
    by_cases hpos : pos = other
    · subst hpos
      obtain rfl : f = x := Option.some.inj (hf.symm.trans hx)
      exact ⟨g, by simp [(List.getElem?_eq_some_iff.mp hf).1], hfg⟩
    · refine ⟨x, ?_, (h x (List.mem_of_getElem? hx)).becomes⟩
      rw [List.getElem?_set_ne hpos, hx]

theorem Change.preserves_action {change : Change} {action : Action Unit}
    (h : ∀ f ∈ frames, f.Represented)
    (haction : change.action? frames = some action) :
    Preserves action := by
  cases change with
  | push v =>
      cases haction
      exact preserves_push v
  | pop =>
      cases haction
      exact preserves_pop.bind fun _ => preserves_pure ()
  | popSized size =>
      cases haction
      exact (preserves_popSized size).bind fun _ => preserves_pure ()
  | popN count =>
      cases haction
      exact preserves_popN _
  | clearStack =>
      cases haction
      exact preserves_clearStack
  | setLocal index v =>
      cases haction
      exact preserves_setLocal index v
  | merge other =>
      obtain ⟨g, hg, rfl⟩ := Option.map_eq_some_iff.mp haction
      exact (preserves_absorb (h g (List.mem_of_getElem? hg))).bind fun _ =>
        preserves_pure ()

/-- One operation on a collection. -/
theorem Operation.grows_of_apply {op : Operation}
    (h : ∀ f ∈ frames, f.Represented) (hop : op.Admissible)
    (happly : op.apply frames = some frames') :
    Grows frames frames' := by
  cases op with
  | new maxLocals maxStack =>
      obtain ⟨hlocals, hstack, hbound⟩ := hop
      have hnew : ofBounds maxLocals maxStack =
          .ok (Frame.new maxLocals.toInt.toNat maxStack.toInt.toNat) :=
        if_neg (by omega)
      rw [apply, hnew] at happly
      cases happly
      exact grows_append h (represented_new (by omega))
  | copy pos =>
      obtain ⟨f, hf, happend⟩ := Option.bind_eq_some_iff.mp happly
      cases happend
      exact grows_append h (h f (List.mem_of_getElem? hf))
  | change pos change =>
      obtain ⟨f, hf, hrest⟩ := Option.bind_eq_some_iff.mp happly
      obtain ⟨action, haction, hrest⟩ := Option.bind_eq_some_iff.mp hrest
      obtain ⟨g, hg, hset⟩ := Option.bind_eq_some_iff.mp hrest
      cases hset
      have hf' := h f (List.mem_of_getElem? hf)
      exact grows_set h hf (Change.preserves_action h haction f g hf' hg)

/-- Any number of operations on a collection. -/
theorem Operation.grows_of_applyAll {ops : List Operation}
    (h : ∀ f ∈ frames, f.Represented) (hops : ∀ op ∈ ops, op.Admissible)
    (happly : applyAll ops frames = some frames') :
    Grows frames frames' := by
  induction ops generalizing frames with
  | nil =>
      cases happly
      exact Grows.refl h
  | cons op ops ih =>
      rw [List.forall_mem_cons] at hops
      rw [applyAll, List.foldlM_cons] at happly
      obtain ⟨middle, hstep, hrest⟩ := Option.bind_eq_some_iff.mp happly
      have hfirst := grows_of_apply h hops.1 hstep
      exact hfirst.trans (ih hfirst.represented hops.2 hrest)

/-- Whatever operations have built up a collection of frames, refused ones among
them: in every frame the slot count is the number of slots on the stack and
within the bound, the stack entries take one or two slots, and a local variable
of two slots is followed by an unusable one.  Whatever operations follow, no
frame changes its number of local variables or its stack bound. -/
theorem frames_stay_represented {ops more : List Operation}
    (hops : ∀ op ∈ ops, op.Admissible) (hmore : ∀ op ∈ more, op.Admissible)
    (happly : Operation.applyAll ops [] = some frames)
    (hthen : Operation.applyAll more frames = some frames') :
    (∀ f ∈ frames, f.Represented ∧ f.CountsInWords) ∧
      ∀ (pos : Nat) (f : Frame), frames[pos]? = some f →
        ∃ g, frames'[pos]? = some g ∧ g.Represented ∧ g.CountsInWords ∧
          g.locals.length = f.locals.length ∧ g.maxStack = f.maxStack := by
  have hfirst := Operation.grows_of_applyAll (List.forall_mem_nil _) hops happly
  have hnext := Operation.grows_of_applyAll hfirst.represented hmore hthen
  constructor
  · intro f hf
    have hrepresented := hfirst.represented f hf
    exact ⟨hrepresented, hrepresented.countsInWords⟩
  · intro pos f hf
    obtain ⟨g, hg, hbecomes⟩ := hnext.becomes pos f hf
    exact ⟨g, hg, hbecomes.represented, hbecomes.represented.countsInWords,
      hbecomes.length_locals, hbecomes.maxStack_eq⟩

/-- Values that no instruction makes, a push that is refused, and a pop that
takes the entry although it is refused. -/
def oddOperations : List Operation :=
  [.new 3 4, .change 0 (.setLocal 0 ⟨.unknown, 2⟩), .change 0 (.push ⟨⟨9⟩, 2⟩),
    .change 0 (.push ⟨.null, 7⟩), .change 0 (.popSized 1), .copy 0]

/-- The upper half of a value is overwritten in the copy, which is then merged
back. -/
def oddChanges : List Operation :=
  [.change 1 (.setLocal 1 ⟨.null, 0⟩), .change 0 (.merge 1)]

theorem frames_stay_represented_oddOperations :
    ∃ f g copy, Operation.applyAll oddOperations [] = some [f, f] ∧
      Operation.applyAll oddChanges [f, f] = some [g, copy] ∧
      f = ⟨[⟨.unknown, 2⟩, .conflict, .empty], [], 0, 4⟩ ∧
      copy = ⟨[.conflict, ⟨.null, 0⟩, .empty], [], 0, 4⟩ ∧
      g = ⟨[.conflict, .conflict, .empty], [], 0, 4⟩ ∧
      f.Represented ∧ g.Represented ∧ copy.Represented := by
  have hops : ∀ op ∈ oddOperations, op.Admissible := by
    simp [oddOperations, Operation.Admissible]
  have hmore : ∀ op ∈ oddChanges, op.Admissible := by
    simp [oddChanges, Operation.Admissible]
  have happly : Operation.applyAll oddOperations [] =
      some (List.replicate 2
        ⟨[⟨.unknown, 2⟩, .conflict, .empty], [], 0, 4⟩) := rfl
  have hthen : Operation.applyAll oddChanges
      (List.replicate 2 ⟨[⟨.unknown, 2⟩, .conflict, .empty], [], 0, 4⟩) =
      some [⟨[.conflict, .conflict, .empty], [], 0, 4⟩,
        ⟨[.conflict, ⟨.null, 0⟩, .empty], [], 0, 4⟩] := rfl
  obtain ⟨hbefore, hafter⟩ := frames_stay_represented hops hmore happly hthen
  obtain ⟨g, hg, hgrep, -⟩ := hafter 0 _ rfl
  obtain ⟨copy, hcopy, hcopyrep, -⟩ := hafter 1 _ rfl
  cases hg
  cases hcopy
  exact ⟨_, _, _, happly, hthen, rfl, rfl, rfl,
    (hbefore _ List.mem_cons_self).1, hgrep, hcopyrep⟩

end Frame
end Nullness
