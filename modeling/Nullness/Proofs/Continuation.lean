import Nullness.Proofs.Reading

/-!
# Reading a text that stands further down

A text that comes after another one is read as it is read alone, with three
differences.  Its lines have other numbers, and so have the errors that are
reported at them.  The methods read before stay in front of its own.  And its
methods have other owners, as far as no class directive has named their owner.

The differences make up a `Preceding`, which says how the state of the reader
looks there.  Every step of the reader, from a state and a line as they are
further down, leads to the state that the step alone leads to, as it is further
down; so does reading whole texts.
-/

namespace Nullness
namespace Assembly

/-! ## Errors further down -/

/-- The error at a line that has another number. -/
def SyntaxError.renumber (n : Nat → Nat) (e : SyntaxError) : SyntaxError :=
  { e with line := n e.line }

/-- A result as it is further down, where the given functions say what number a
line has and how the value looks. -/
def carry {α β : Type} (n : Nat → Nat) (f : α → β) :
    Except (Failure SyntaxError) α → Except (Failure SyntaxError) β
  | .ok a => .ok (f a)
  | .error failure => .error (failure.map (SyntaxError.renumber n))

section Carry

variable {α β γ δ : Type} {n : Nat → Nat} {f : α → β} {g : γ → δ}

@[simp] theorem carry_ok (a : α) : carry n f (.ok a) = .ok (f a) := rfl

/-- A computation in two parts is carried over part by part. -/
theorem carry_bind {x : Except (Failure SyntaxError) α}
    {x' : Except (Failure SyntaxError) β}
    {k : α → Except (Failure SyntaxError) γ}
    {k' : β → Except (Failure SyntaxError) δ} (hx : x' = carry n f x)
    (hk : ∀ a, k' (f a) = carry n g (k a)) :
    (x' >>= k') = carry n g (x >>= k) := by
  rw [hx]
  cases x with
  | error failure => rfl
  | ok a => exact hk a

/-- A choice is carried over by carrying over what is chosen. -/
theorem carry_ite {P : Prop} [Decidable P]
    {x y : Except (Failure SyntaxError) α}
    {x' y' : Except (Failure SyntaxError) β} (hx : P → x' = carry n f x)
    (hy : ¬P → y' = carry n f y) :
    (if P then x' else y') = carry n f (if P then x else y) := by
  by_cases hP : P
  · rw [if_pos hP, if_pos hP, hx hP]
  · rw [if_neg hP, if_neg hP, hy hP]

theorem carry_atLine {number : Nat} {x : Except (Failure Cause) α}
    {x' : Except (Failure Cause) β} (hx : x' = x.map f) :
    atLine (n number) x' = carry n f (atLine number x) := by
  rw [hx]
  cases x with
  | error failure => cases failure <;> rfl
  | ok a => rfl

end Carry

/-! ## States further down -/

/-- The class that a line between methods names. -/
def Line.className? (line : Line) : Option Text :=
  if classDirectives.contains line.head then line.args.getLast? else none

/-- What comes before a text: the numbers that its lines have instead of those
that they have alone, some methods, and the owners that the methods of the text
have instead. -/
structure Preceding where
  number : Nat → Nat
  methods : List Method
  owner : Text → Text

namespace Preceding

variable (c : Preceding)

def line (line : Line) : Line := { line with number := c.number line.number }

def method (m : Method) : Method := { m with owner := c.owner m.owner }

def draft (d : Draft) : Draft :=
  { d with
    line := c.number d.line
    owner := c.owner d.owner
    body := d.body.map c.line
    catches := d.catches.map c.line }

def mode : Mode → Mode
  | .outside => .outside
  | .body d => .body (c.draft d)
  | .cases d head => .cases (c.draft d) (c.line head)

def progress (p : Progress) : Progress where
  owner := c.owner p.owner
  methods := c.methods.toArray ++ p.methods.map c.method
  mode := c.mode p.mode

/-- A class that a line names is the same class wherever the text stands. -/
def Keeps (line : Line) : Prop := ∀ name ∈ line.className?, c.owner name = name

/-! ## Steps -/

theorem draft_push_body (d : Draft) (line : Line) :
    c.draft { d with body := d.body.push line } =
      { c.draft d with body := (c.draft d).body.push (c.line line) } := by
  simp [draft]

theorem draft_push_catches (d : Draft) (line : Line) :
    c.draft { d with catches := d.catches.push line } =
      { c.draft d with catches := (c.draft d).catches.push (c.line line) } := by
  simp [draft]

theorem progress_body (p : Progress) (d : Draft) :
    c.progress { p with mode := .body d } =
      { c.progress p with mode := .body (c.draft d) } := rfl

theorem progress_push (p : Progress) (m : Method) :
    c.progress { p with methods := p.methods.push m, mode := .outside } =
      { c.progress p with
        methods := (c.progress p).methods.push (c.method m), mode :=
          .outside } := by
  simp [progress, mode]

theorem eachLine_line {α : Type} {resolve : Line → Except (Failure Cause) α}
    (hresolve : ∀ line, resolve (c.line line) = resolve line)
    (lines : List Line) :
    eachLine resolve (lines.map c.line) =
      carry c.number id (eachLine resolve lines) := by
  induction lines with
  | nil => rfl
  | cons line lines ih =>
      refine carry_bind (f := id) (carry_atLine ?_) fun a =>
        carry_bind ih fun rest => rfl
      rw [hresolve]
      cases resolve line <;> rfl

theorem finish_draft (d : Draft) :
    (c.draft d).finish = carry c.number c.method d.finish := by
  have hbody : (c.draft d).body.toList = d.body.toList.map c.line := by
    simp [draft]
  have hcatches : (c.draft d).catches.toList = d.catches.toList.map c.line := by
    simp [draft]
  have hsize : (c.draft d).body.size = d.body.size := by
    simp [draft]
  rw [Draft.finish, Draft.finish, hbody, hcatches, hsize]
  refine carry_bind (c.eachLine_line (fun _ => rfl) _) fun insns => ?_
  exact carry_bind (c.eachLine_line (fun _ => rfl) _) fun handlers => rfl

theorem limit_draft (d : Draft) (args : List Text) :
    (c.draft d).limit args = (d.limit args).map c.draft := by
  rcases args with _ | ⟨name, _ | ⟨bound, _ | ⟨extra, args⟩⟩⟩
  · rfl
  · rfl
  · simp only [Draft.limit]
    cases Number.decimal? bound with
    | none => rfl
    | some n =>
        dsimp only
        split_ifs <;> rfl
  · rfl

theorem param_draft (d : Draft) (args : List Text) :
    (c.draft d).param args = (d.param args).map c.draft := by
  rcases args with _ | ⟨index, _ | ⟨name, _ | ⟨extra, args⟩⟩⟩
  · rfl
  · rfl
  · simp only [Draft.param]
    cases Number.decimal? index with
    | none => rfl
    | some i =>
        dsimp only
        split_ifs
        · rfl
        · cases Nullability.ofName? name with
          | none => rfl
          | some n =>
              have hparams : (c.draft d).params = d.params := rfl
              dsimp only
              rw [hparams]
              cases setParam d.params i.toInt.toNat n <;> rfl
  · rfl

theorem ofHeader_line (owner : Text) (line : Line) :
    Draft.ofHeader (c.owner owner) (c.line line) =
      carry c.number c.draft (Draft.ofHeader owner line) := by
  have hargs : (c.line line).args = line.args := rfl
  rw [Draft.ofHeader, Draft.ofHeader, hargs]
  cases line.args.getLast? with
  | none => rfl
  | some nameDesc =>
      dsimp only
      cases splitDescriptor? nameDesc with
      | none => rfl
      | some parts =>
          dsimp only
          split_ifs
          · rfl
          · simp [draft, Preceding.line]

theorem advanceOutside_progress (p : Progress) {line : Line}
    (hline : c.Keeps line) :
    advanceOutside (c.progress p) (c.line line) =
      carry c.number c.progress (advanceOutside p line) := by
  have hhead : (c.line line).head = line.head := rfl
  have hargs : (c.line line).args = line.args := rfl
  rw [advanceOutside, advanceOutside, hhead, hargs]
  apply carry_ite
  · intro hclass
    cases hname : line.args.getLast? with
    | none => rfl
    | some name =>
        have hnamed : line.className? = some name := by
          rw [Line.className?, if_pos hclass, hname]
        simp [progress, hline name hnamed]
  · intro _
    refine carry_ite (fun _ => rfl) fun _ =>
      carry_ite (fun _ => ?_) fun _ => rfl
    exact carry_bind (c.ofHeader_line p.owner line) fun d => rfl

theorem advanceBody_progress (p : Progress) (d : Draft) (line : Line) :
    advanceBody (c.progress p) (c.draft d) (c.line line) =
      carry c.number c.progress (advanceBody p d line) := by
  have hhead : (c.line line).head = line.head := rfl
  have hargs : (c.line line).args = line.args := rfl
  have hnumber : (c.line line).number = c.number line.number := rfl
  rw [advanceBody, advanceBody, hhead, hargs, hnumber]
  -- The end, the limits, the parameters and the handlers, in the order in which
  -- they are looked for; then what is ignored, the switches, the other
  -- directives and `wide`.
  refine carry_ite (fun _ => ?_) fun _ => carry_ite (fun _ => ?_) fun _ =>
    carry_ite (fun _ => ?_) fun _ => carry_ite (fun _ => ?_) fun _ =>
    carry_ite (fun _ => rfl) fun _ => carry_ite (fun _ => rfl) fun _ =>
    carry_ite (fun _ => rfl) fun _ => carry_ite (fun _ => ?_) fun _ => ?_
  · refine carry_bind (c.finish_draft d) fun m => ?_
    exact congrArg Except.ok (c.progress_push p m).symm
  · exact carry_bind (carry_atLine (c.limit_draft d line.args)) fun d => rfl
  · exact carry_bind (carry_atLine (c.param_draft d line.args)) fun d => rfl
  · rw [carry_ok, progress_body, draft_push_catches]
  · cases line.args with
    | nil => rfl
    | cons head args =>
        rw [Line.ofFields?, Line.ofFields?, carry_ok, progress_body,
          draft_push_body]
        rfl
  · rw [carry_ok, progress_body, draft_push_body]

theorem advanceLabelled_progress (p : Progress) (d : Draft) (line : Line) :
    advanceLabelled (c.progress p) (c.draft d) (c.line line) =
      carry c.number c.progress (advanceLabelled p d line) := by
  have hhead : (c.line line).head = line.head := rfl
  have hargs : (c.line line).args = line.args := rfl
  have hnumber : (c.line line).number = c.number line.number := rfl
  have hlabels : (c.draft d).labels = d.labels := rfl
  have hsize : (c.draft d).body.size = d.body.size := by
    simp [draft]
  rw [advanceLabelled, advanceLabelled, hhead, hargs, hnumber, hlabels, hsize]
  cases labelName? line.head with
  | none => exact c.advanceBody_progress p d line
  | some label =>
      dsimp only
      split_ifs
      · rfl
      · cases line.args with
        | nil => rfl
        | cons head args =>
            exact c.advanceBody_progress p
              { d with labels := (label, d.body.size) :: d.labels }
              ⟨line.number, head, args⟩

theorem advanceCases_progress (p : Progress) (d : Draft) (head line : Line) :
    advanceCases (c.progress p) (c.draft d) (c.line head) (c.line line) =
      c.progress (advanceCases p d head line) := by
  have hdefault : isDefaultCase (c.line line) = isDefaultCase line := rfl
  rw [advanceCases, advanceCases, hdefault]
  split_ifs
  · rw [progress_body, draft_push_body]
    rfl
  · rfl

/-- A step from a state further down. -/
theorem advance_progress (p : Progress) {line : Line} (hline : c.Keeps line) :
    advance (c.progress p) (c.line line) =
      carry c.number c.progress (advance p line) := by
  have hmode : (c.progress p).mode = c.mode p.mode := rfl
  rw [advance, advance, hmode]
  cases p.mode with
  | outside => exact c.advanceOutside_progress p hline
  | body d => exact c.advanceLabelled_progress p d line
  | cases d head =>
      exact congrArg Except.ok (c.advanceCases_progress p d head line)

/-- Reading lines from a state further down. -/
theorem foldlM_progress (p : Progress) {lines : List Line}
    (hlines : ∀ line ∈ lines, c.Keeps line) :
    (lines.map c.line).foldlM advance (c.progress p) =
      carry c.number c.progress (lines.foldlM advance p) := by
  induction lines generalizing p with
  | nil => rfl
  | cons line lines ih =>
      rw [List.forall_mem_cons] at hlines
      rw [List.map_cons, List.foldlM_cons, List.foldlM_cons]
      exact carry_bind (c.advance_progress p hlines.1) fun p => ih p hlines.2

theorem finish_progress (p : Progress) :
    (c.progress p).finish =
      carry c.number (fun ms => c.methods ++ ms.map c.method) p.finish := by
  have hmode : (c.progress p).mode = c.mode p.mode := rfl
  rw [Progress.finish, Progress.finish, hmode]
  cases p.mode with
  | outside => simp [mode, progress]
  | body d => rfl
  | cases d head => rfl

end Preceding
end Assembly
end Nullness
