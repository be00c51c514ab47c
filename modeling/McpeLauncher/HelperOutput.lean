import McpeLauncher.Runs

/-! # Reading the output of the sign-in helper

`exec_get_stdout` reads once from the pipe of the standard output, then once from that of the
standard error, closes both and waits for the child, which blocks on a pipe that is full. -/
namespace XalWebView
open List

/-- What a child does before it exits with status 0; a chunk is what the kernel moves at once. -/
inductive ChildAction where
  | writeOut (chunk : List UInt8)
  | writeErr (chunk : List UInt8)
  | closeOut
  | closeErr

/-- A pipe, and whether the child has closed it. -/
structure Pipe where
  data : List UInt8 := []
  closed : Bool := false

/-- Where `exec_get_stdout` is, with what it has read from the standard output. -/
inductive ParentPhase where
  | readStdout
  | readStderr (output : List UInt8)
  | waitpid (output : List UInt8)
  | returned (output : List UInt8)

structure HelperRun where
  parent : ParentPhase := .readStdout
  child : List ChildAction
  out : Pipe := {}
  err : Pipe := {}

inductive Turn where
  | parent
  | child

namespace HelperRun

/-- A `read` does not wait: there is data, or nothing can come any more. -/
def Ready (s : HelperRun) (p : Pipe) : Prop := p.data ≠ [] ∨ p.closed ∨ s.child.isEmpty

instance (s : HelperRun) (p : Pipe) : Decidable (s.Ready p) :=
  inferInstanceAs (Decidable (_ ∨ _ ∨ _))

def parentStep (s : HelperRun) : Option HelperRun :=
  match s.parent with
  | .readStdout =>
    if s.Ready s.out then some { s with
      parent := .readStderr (s.out.data.take 1024), out.data := s.out.data.drop 1024 }
    else none
  -- what is read here is for the text of an exception
  | .readStderr output => if s.Ready s.err then some { s with parent := .waitpid output } else none
  | .waitpid output => if s.child.isEmpty then some { s with parent := .returned output } else none
  | .returned _ => none

def gone (s : HelperRun) : Bool :=
  match s.parent with
  | .waitpid _ | .returned _ => true
  | _ => false

/-- A `write` waits for room; on a closed pipe it fails, and the child goes on. -/
def write (capacity : Nat) (s : HelperRun) (chunk : List UInt8) (p : Pipe) : Option Pipe :=
  if p.closed || s.gone then some p
  else if p.data = [] ∨ p.data.length + chunk.length ≤ capacity then
    some { p with data := p.data ++ chunk }
  else none

def childStep (capacity : Nat) (s : HelperRun) : Option HelperRun :=
  match s.child with
  | [] => none
  | .writeOut chunk :: rest =>
    (s.write capacity chunk s.out).map fun p => { s with child := rest, out := p }
  | .writeErr chunk :: rest =>
    (s.write capacity chunk s.err).map fun p => { s with child := rest, err := p }
  | .closeOut :: rest => some { s with child := rest, out.closed := true }
  | .closeErr :: rest => some { s with child := rest, err.closed := true }

def step (capacity : Nat) (s : HelperRun) : Turn → Option HelperRun
  | .parent => s.parentStep
  | .child => s.childStep capacity

end HelperRun

def stdoutBytes : List ChildAction → List UInt8
  | [] | .closeOut :: _ => []
  | .writeOut chunk :: rest => chunk ++ stdoutBytes rest
  | _ :: rest => stdoutBytes rest

/-- The standard output is one chunk that one `read` takes, or nothing; up to there the standard
error, with `n` bytes unless it is closed, does not fill its pipe. -/
def Prompt (capacity : Nat) : (n : Option Nat) → List ChildAction → Prop
  | _, [] | _, .closeOut :: _ => True
  | _, .closeErr :: rest | none, .writeErr _ :: rest => Prompt capacity none rest
  | some n, .writeErr chunk :: rest =>
    n + chunk.length ≤ capacity ∧ Prompt capacity (some (n + chunk.length)) rest
  | n, .writeOut chunk :: rest =>
    if chunk = [] then Prompt capacity n rest else chunk.length ≤ 1024 ∧ stdoutBytes rest = []

namespace HelperRun

def Done (s : HelperRun) : Prop := s.out.closed = false → stdoutBytes s.child = []

/-- The run of a child that prints `text`. -/
def Inv (capacity : Nat) (text : List UInt8) (s : HelperRun) : Prop :=
  match s.parent with
  | .readStdout =>
    (s.out = {} ∧ stdoutBytes s.child = text ∧
      ∃ n, (if s.err.closed then n = none else ∃ k, n = some k ∧ s.err.data.length ≤ k) ∧
        Prompt capacity n s.child) ∨
    (s.out.data = text ∧ (text ≠ [] ∨ s.out.closed) ∧ text.length ≤ 1024 ∧ s.Done)
  | .readStderr output => output = text ∧ s.out.data = [] ∧ s.Done
  | .waitpid output | .returned output => output = text

variable {capacity : Nat} {text : List UInt8} {s s' : HelperRun}

theorem parentStep_cases (hs : s.parentStep = some s') :
    (s.parent = .readStdout ∧ s.Ready s.out ∧ s' = { s with
      parent := .readStderr (s.out.data.take 1024), out.data := s.out.data.drop 1024 }) ∨
    (∃ output, s.parent = .readStderr output ∧ s' = { s with parent := .waitpid output }) ∨
    ∃ output, s.parent = .waitpid output ∧ s' = { s with parent := .returned output } := by
  rw [HelperRun.parentStep] at hs
  split at hs <;> rename_i hparent
  · obtain ⟨hready, hs⟩ := Option.ite_none_right_eq_some.mp hs
    exact .inl ⟨hparent, hready, (Option.some.inj hs).symm⟩
  · exact .inr (.inl ⟨_, hparent, (Option.some.inj (Option.ite_none_right_eq_some.mp hs).2).symm⟩)
  · exact .inr (.inr ⟨_, hparent, (Option.some.inj (Option.ite_none_right_eq_some.mp hs).2).symm⟩)
  · cases hs

theorem childStep_cases (hs : s.childStep capacity = some s') :
    (∃ chunk rest p, s.child = .writeOut chunk :: rest ∧ s.write capacity chunk s.out = some p ∧
      s' = { s with child := rest, out := p }) ∨
    (∃ chunk rest p, s.child = .writeErr chunk :: rest ∧ s.write capacity chunk s.err = some p ∧
      s' = { s with child := rest, err := p }) ∨
    (∃ rest, s.child = .closeOut :: rest ∧ s' = { s with child := rest, out.closed := true }) ∨
    ∃ rest, s.child = .closeErr :: rest ∧ s' = { s with child := rest, err.closed := true } := by
  rw [HelperRun.childStep] at hs
  split at hs <;> rename_i hchild
  · cases hs
  · obtain ⟨p, hp, rfl⟩ := Option.map_eq_some_iff.mp hs
    exact .inl ⟨_, _, p, hchild, hp, rfl⟩
  · obtain ⟨p, hp, rfl⟩ := Option.map_eq_some_iff.mp hs
    exact .inr (.inl ⟨_, _, p, hchild, hp, rfl⟩)
  · exact .inr (.inr (.inl ⟨_, hchild, (Option.some.inj hs).symm⟩))
  · exact .inr (.inr (.inr ⟨_, hchild, (Option.some.inj hs).symm⟩))

theorem write_eq {chunk : List UInt8} {p p' : Pipe} (h : s.write capacity chunk p = some p') :
    p' = p ∨ p.closed = false ∧ p' = { p with data := p.data ++ chunk } := by
  grind [write]

theorem write_eq_none {chunk : List UInt8} {p : Pipe} (h : s.write capacity chunk p = none) :
    s.gone = false ∧ p.data ≠ [] ∧ capacity < p.data.length + chunk.length ∧ p.closed = false := by
  grind [write]

theorem Inv.parentStep (h : Inv capacity text s) (hs : s.parentStep = some s') :
    Inv capacity text s' := by
  rw [Inv] at h
  rcases parentStep_cases hs with ⟨hparent, hready, rfl⟩ | ⟨output, hparent, rfl⟩ |
    ⟨output, hparent, rfl⟩ <;> rw [hparent] at h
  · rcases h with ⟨hout, htext, -⟩ | ⟨rfl, -, hlength, hdone⟩
    · have hchild : s.child = [] := by simpa [Ready, hout] using hready
      rw [hchild] at htext
      exact ⟨by rw [hout, ← htext]; rfl, by rw [hout]; rfl, fun _ => by rw [hchild]; rfl⟩
    · exact ⟨take_of_length_le hlength, drop_of_length_le hlength, hdone⟩
  · exact h.1
  · exact h

/-- A step of the child when nothing more comes on the standard output. -/
theorem Done.childStep (h : s.Done) (hs : s.childStep capacity = some s') :
    s'.Done ∧ s'.out.data = s.out.data ∧ (s.out.closed → s'.out.closed) := by
  rw [Done] at h
  rcases childStep_cases hs with ⟨chunk, rest, p, hchild, hp, rfl⟩ |
    ⟨chunk, rest, p, hchild, -, rfl⟩ | ⟨rest, hchild, rfl⟩ | ⟨rest, hchild, rfl⟩ <;>
    rw [hchild] at h
  · rcases write_eq hp with rfl | ⟨hopen, rfl⟩
    · exact ⟨fun hclosed => (append_eq_nil_iff.mp (h hclosed)).2, rfl, id⟩
    · obtain ⟨rfl, hrest⟩ := append_eq_nil_iff.mp (h hopen)
      exact ⟨fun _ => hrest, append_nil _, id⟩
  · exact ⟨h, rfl, id⟩
  · exact ⟨nofun, rfl, fun _ => rfl⟩
  · exact ⟨h, rfl, id⟩

theorem Inv.childStep (h : Inv capacity text s) (hs : s.childStep capacity = some s') :
    Inv capacity text s' := by
  have hsame : s'.parent = s.parent := by
    rcases childStep_cases hs with ⟨_, _, _, -, -, rfl⟩ | ⟨_, _, _, -, -, rfl⟩ | ⟨_, -, rfl⟩ |
      ⟨_, -, rfl⟩ <;> rfl
  rw [Inv] at h ⊢
  rw [hsame]
  split at h
  · rename_i hparent
    rcases h with ⟨hout, htext, n, hn, hprompt⟩ | ⟨hout, hready, hlength, hdone⟩
    -- nothing was written yet, so that a chunk is all of the output
    · rcases childStep_cases hs with ⟨chunk, rest, p, hchild, hp, rfl⟩ |
        ⟨chunk, rest, p, hchild, hp, rfl⟩ | ⟨rest, hchild, rfl⟩ | ⟨rest, hchild, rfl⟩ <;>
        rw [hchild] at htext hprompt
      · obtain rfl : p = { data := chunk } := by
          simpa [write, hout, gone, hparent, eq_comm] using hp
        rw [Prompt] at hprompt
        split at hprompt
        · next hempty =>
          subst hempty
          exact .inl ⟨rfl, htext, n, hn, hprompt⟩
        · next hne =>
          rw [stdoutBytes, hprompt.2, append_nil] at htext
          subst htext
          exact .inr ⟨rfl, .inl hne, hprompt.1, fun _ => hprompt.2⟩
      · split at hn
        · next hclosed =>
          subst hn
          obtain rfl : p = s.err := by simpa [write, hclosed, eq_comm] using hp
          exact .inl ⟨hout, htext, none, (if_pos hclosed).mpr rfl, hprompt⟩
        · next hopen =>
          obtain ⟨k, rfl, hk⟩ := hn
          refine .inl ⟨hout, htext, some (k + chunk.length), ?_, hprompt.2⟩
          rcases write_eq hp with rfl | ⟨-, rfl⟩
          · exact (if_neg hopen).mpr ⟨_, rfl, Nat.le_add_right_of_le hk⟩
          · exact (if_neg hopen).mpr ⟨_, rfl, by simpa using hk⟩
      · subst htext
        exact .inr ⟨by rw [hout]; rfl, .inr rfl, Nat.zero_le _, nofun⟩
      · exact .inl ⟨hout, htext, none, (if_pos rfl).mpr rfl, hprompt⟩
    · obtain ⟨hdone', hdata, hclosed⟩ := hdone.childStep hs
      exact .inr ⟨hdata.trans hout, hready.imp id hclosed, hlength, hdone'⟩
  · obtain ⟨hdone', hdata, -⟩ := h.2.2.childStep hs
    exact ⟨h.1, hdata.trans h.2.1, hdone'⟩
  · exact h
  · exact h

/-- A child that makes no step has exited or is at a write without room. -/
theorem childStep_eq_none (h : s.childStep capacity = none) :
    s.child = [] ∨ ∃ chunk rest, s.child = .writeOut chunk :: rest ∧
        s.write capacity chunk s.out = none ∨
      s.child = .writeErr chunk :: rest ∧ s.write capacity chunk s.err = none := by
  rw [HelperRun.childStep] at h
  split at h <;> rename_i hchild
  · exact .inl hchild
  · exact .inr ⟨_, _, .inl ⟨hchild, Option.map_eq_none_iff.mp h⟩⟩
  · exact .inr ⟨_, _, .inr ⟨hchild, Option.map_eq_none_iff.mp h⟩⟩
  · cases h
  · cases h

theorem Inv.returned (h : Inv capacity text s) (hparent : s.parentStep = none)
    (hchild : s.childStep capacity = none) : s.parent = .returned text := by
  have hchild := childStep_eq_none hchild
  rw [Inv] at h
  rw [HelperRun.parentStep] at hparent
  split at h <;> rename_i hphase <;> rw [hphase] at hparent
  · have hwaits := ite_eq_right_iff.mp hparent
    rcases h with ⟨hout, -, n, hn, hprompt⟩ | ⟨hout, hready, -⟩
    · rcases hchild with hexit | ⟨chunk, rest, ⟨hc, hwrite⟩ | ⟨hc, hwrite⟩⟩
      · exact absurd (hwaits (.inr (.inr (by rw [hexit]; rfl)))) nofun
      · exact absurd (congrArg Pipe.data hout) (write_eq_none hwrite).2.1
      -- the one write that could wait has room
      · obtain ⟨-, -, hfull, hopen⟩ := write_eq_none hwrite
        rw [if_neg (by simp [hopen])] at hn
        obtain ⟨k, rfl, hk⟩ := hn
        rw [hc] at hprompt
        have := hprompt.1
        omega
    · exact absurd (hwaits (hready.imp (hout ▸ id) .inl)) nofun
  · have hwaits := ite_eq_right_iff.mp hparent
    rcases hchild with hexit | ⟨chunk, rest, ⟨-, hwrite⟩ | ⟨-, hwrite⟩⟩
    · exact absurd (hwaits (.inr (.inr (by rw [hexit]; rfl)))) nofun
    · exact absurd h.2.1 (write_eq_none hwrite).2.1
    · exact absurd (hwaits (.inl (write_eq_none hwrite).2.1)) nofun
  · have hgone : s.gone = true := by rw [gone, hphase]
    rcases hchild with hexit | ⟨chunk, rest, ⟨-, hwrite⟩ | ⟨-, hwrite⟩⟩
    · exact absurd (ite_eq_right_iff.mp hparent (by rw [hexit]; rfl)) nofun
    · exact absurd (hgone.symm.trans (write_eq_none hwrite).1) nofun
    · exact absurd (hgone.symm.trans (write_eq_none hwrite).1) nofun
  · rw [hphase, h]

def stepsLeft (s : HelperRun) : Nat :=
  s.child.length + match s.parent with
    | .readStdout => 3
    | .readStderr _ => 2
    | .waitpid _ => 1
    | .returned _ => 0

theorem stepsLeft_step {turn : Turn} (hs : s.step capacity turn = some s') :
    s.stepsLeft = s'.stepsLeft + 1 := by
  cases turn with
  | parent =>
    rcases parentStep_cases hs with ⟨hparent, -, rfl⟩ | ⟨_, hparent, rfl⟩ | ⟨_, hparent, rfl⟩ <;>
      simp [stepsLeft, hparent]
  | child =>
    rcases childStep_cases hs with ⟨_, _, _, hchild, -, rfl⟩ | ⟨_, _, _, hchild, -, rfl⟩ |
      ⟨_, hchild, rfl⟩ | ⟨_, hchild, rfl⟩ <;>
      simp only [stepsLeft, hchild, length_cons] <;> omega

theorem Inv.step {turn : Turn} (h : Inv capacity text s) (hs : s.step capacity turn = some s') :
    Inv capacity text s' := by
  cases turn with
  | parent => exact h.parentStep hs
  | child => exact h.childStep hs

/-- **A prompt child is read whole**: every run ends, and then the parent has returned what the
child has written. -/
theorem stdout_read_whole (capacity : Nat) (actions : List ChildAction)
    (h : Prompt capacity (some 0) actions) (run : List Turn) (s : HelperRun)
    (hrun : run.foldlM (step capacity) { child := actions } = some s) :
    run.length ≤ actions.length + 3 ∧
      ((∀ turn, s.step capacity turn = none) → s.parent = .returned (stdoutBytes actions)) := by
  have hstart : Inv capacity (stdoutBytes actions) { child := actions } :=
    .inl ⟨rfl, rfl, some 0, ⟨0, rfl, Nat.le_refl 0⟩, h⟩
  have hinv := Runs.invariant_some (Inv capacity (stdoutBytes actions))
    (fun _ _ _ h hs => h.step hs) hstart hrun
  refine ⟨?_, fun hstuck => hinv.returned (hstuck .parent) (hstuck .child)⟩
  suffices ∀ s₀ : HelperRun, run.foldlM (step capacity) s₀ = some s → run.length ≤ s₀.stepsLeft from
    this _ hrun
  clear hrun hstart
  induction run with
  | nil => exact fun _ _ => Nat.zero_le _
  | cons turn run ih =>
    intro s₀ hrun
    obtain ⟨s₁, hfirst, hrest⟩ := Option.bind_eq_some_iff.mp (foldlM_cons.symm.trans hrun)
    rw [stepsLeft_step hfirst]
    exact Nat.succ_le_succ (ih s₁ hrest)

/-- The child writes to the standard error before and after it closes it. -/
theorem stdout_read_whole_one :
    ∃ s, [Turn.child, .child, .parent, .child, .child, .parent, .parent].foldlM (step 65536)
      { child := [.writeErr [9], .writeOut [7], .closeErr, .writeErr [9]] } = some s ∧
        s.parent = .returned [7] :=
  ⟨_, rfl, (stdout_read_whole 65536 [.writeErr [9], .writeOut [7], .closeErr, .writeErr [9]]
    (by simp [Prompt, stdoutBytes]) [.child, .child, .parent, .child, .child, .parent, .parent] _
    rfl).2 (by rintro (_ | _) <;> rfl)⟩

/-- Of two chunks the first is returned; and a child that fills the pipe of the standard error
before it prints anything is stuck. -/
theorem stdout_cut_off :
    (([Turn.child, .parent, .child, .parent, .parent].foldlM (step 65536)
        { child := [.writeOut [1], .writeOut [2]] }).map (·.parent)) = some (.returned [1]) ∧
      ∃ s, [Turn.child].foldlM (step 1) { child := [.writeErr [1], .writeErr [2]] } = some s ∧
        s.parentStep.isNone ∧ (s.childStep 1).isNone := by
  refine ⟨rfl, _, rfl, rfl, rfl⟩

end HelperRun
end XalWebView
