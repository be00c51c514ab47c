import Mathlib

/-! # `poll` by means of `select`

`poll_via_select` puts the descriptors into sets, calls `select` and reads the results off. A set
has bits for 0 to 1023 only, and `FD_SET` writes outside of it for others. -/
namespace LibcShim
open List

/-! ## The call of `select` -/

def pollIn : BitVec 16 := 0x001
def pollPri : BitVec 16 := 0x002
def pollOut : BitVec 16 := 0x004
def pollErr : BitVec 16 := 0x008

structure PollFd where
  fd : Int
  events : BitVec 16
  revents : BitVec 16
  deriving DecidableEq

def PollFd.reads (f : PollFd) : Bool := f.events &&& pollIn ≠ 0 || f.events &&& pollPri ≠ 0

def PollFd.writes (f : PollFd) : Bool := f.events &&& pollOut ≠ 0

def fdSetSize : Int := 1024

def HasBit (fd : Int) : Prop := 0 ≤ fd ∧ fd < fdSetSize

instance (fd : Int) : Decidable (HasBit fd) := inferInstanceAs (Decidable (_ ∧ _))

/-- `FD_SET`; outside of the set, what it does is not defined. -/
def fdSet (fds : Finset Int) (fd : Int) : Option (Finset Int) :=
  if HasBit fd then some (insert fd fds) else none

structure Timeval where
  tvSec : Int
  tvUsec : Int
  deriving DecidableEq

/-- The arguments of `select`; without a time it waits for as long as it takes. -/
structure SelectCall where
  nfds : Int
  readFds : Finset Int
  writeFds : Finset Int
  exceptFds : Finset Int
  timeout : Option Timeval

/-- What `select` makes of the sets when it succeeds: some of what was asked for. -/
structure Ready (call : SelectCall) where
  readFds : Finset Int
  writeFds : Finset Int
  exceptFds : Finset Int
  read_subset : readFds ⊆ call.readFds
  write_subset : writeFds ⊆ call.writeFds
  except_subset : exceptFds ⊆ call.exceptFds

/-- A host, with the answers of its `select`; `none` is a failure. -/
abbrev Select := (call : SelectCall) → Option (Ready call)

/-- `maxfd` and the sets. -/
structure Collected where
  maxfd : Int := 0
  readFds : Finset Int := ∅
  writeFds : Finset Int := ∅
  exceptFds : Finset Int := ∅

def collect (c : Collected) (f : PollFd) : Option Collected := do
  let maxfd := if f.fd > c.maxfd then f.fd else c.maxfd
  let readFds ← if f.reads then fdSet c.readFds f.fd else some c.readFds
  let writeFds ← if f.writes then fdSet c.writeFds f.fd else some c.writeFds
  let exceptFds ← fdSet c.exceptFds f.fd
  return { maxfd, readFds, writeFds, exceptFds }

def Collected.call (c : Collected) (timeout : Int) : SelectCall where
  nfds := c.maxfd + 1
  readFds := c.readFds
  writeFds := c.writeFds
  exceptFds := c.exceptFds
  timeout := some { tvSec := timeout.tdiv 1000, tvUsec := timeout.tmod 1000 * 1000 }

def setRevents (readFds writeFds exceptFds : Finset Int) (f : PollFd) : PollFd :=
  { f with
    revents := (if f.fd ∈ readFds then pollIn else 0) |||
      (if f.fd ∈ writeFds then pollOut else 0) ||| (if f.fd ∈ exceptFds then pollErr else 0) }

/-- What was passed to `select`, what is returned, and the entries afterwards. -/
structure PollOutcome where
  call : SelectCall
  ret : Int
  fds : List PollFd

/-- `poll_via_select`.  A `select` that fails leaves the sets as they are. -/
def pollViaSelect (select : Select) (fds : List PollFd) (timeout : Int) : Option PollOutcome := do
  let c ← fds.foldlM collect {}
  let call := c.call timeout
  match select call with
  | some r => return {
      call
      ret := r.readFds.card + r.writeFds.card + r.exceptFds.card
      fds := fds.map (setRevents r.readFds r.writeFds r.exceptFds) }
  | none => return {
      call
      ret := -1
      fds := fds.map (setRevents call.readFds call.writeFds call.exceptFds) }

/-- The sets have the descriptors of the entries that ask for them, and `select` looks at all. -/
structure Requests (fds : List PollFd) (call : SelectCall) : Prop where
  read : ∀ fd, fd ∈ call.readFds ↔ 0 ≤ fd ∧ ∃ f ∈ fds, f.fd = fd ∧ f.reads
  write : ∀ fd, fd ∈ call.writeFds ↔ 0 ≤ fd ∧ ∃ f ∈ fds, f.fd = fd ∧ f.writes
  except : ∀ fd, fd ∈ call.exceptFds ↔ 0 ≤ fd ∧ ∃ f ∈ fds, f.fd = fd
  nfds : ∀ f ∈ fds, f.fd < call.nfds

/-- What a call of `poll` should do. -/
structure IsPoll (fds : List PollFd) (timeout : Int) (p : PollOutcome) : Prop where
  count : p.ret = p.fds.countP (fun f => f.revents ≠ 0)
  entries : p.fds.map (fun f => (f.fd, f.events)) = fds.map fun f => (f.fd, f.events)
  negative : ∀ f ∈ p.fds, f.fd < 0 → f.revents = 0
  blocks : timeout < 0 → p.call.timeout = none
  requests : Requests fds p.call

def PollsRight (select : Select) (fds : List PollFd) (timeout : Int) : Prop :=
  ∃ p, pollViaSelect select fds timeout = some p ∧ IsPoll fds timeout p

def Collected.add (c : Collected) (f : PollFd) : Collected where
  maxfd := max c.maxfd f.fd
  readFds := if f.reads then insert f.fd c.readFds else c.readFds
  writeFds := if f.writes then insert f.fd c.writeFds else c.writeFds
  exceptFds := insert f.fd c.exceptFds

theorem collect_eq (c : Collected) (f : PollFd) :
    collect c f = if HasBit f.fd then some (c.add f) else none := by
  have hmax : (if f.fd > c.maxfd then f.fd else c.maxfd) = max c.maxfd f.fd := by
    rw [max_def]
    split <;> split <;> omega
  by_cases hbit : HasBit f.fd
  · have hset (s : Finset Int) : fdSet s f.fd = some (insert f.fd s) := if_pos hbit
    rw [if_pos hbit]
    cases hr : f.reads <;> cases hw : f.writes <;>
      simp [collect, Collected.add, hset, hmax, hr, hw]
  · have hset (s : Finset Int) : fdSet s f.fd = none := if_neg hbit
    rw [if_neg hbit]
    cases hr : f.reads <;> cases hw : f.writes <;> simp [collect, hset, hr, hw]

theorem foldlM_collect (c : Collected) (fds : List PollFd) :
    fds.foldlM collect c =
      if ∀ f ∈ fds, HasBit f.fd then some (fds.foldl Collected.add c) else none := by
  induction fds generalizing c with
  | nil => simp
  | cons f fds ih =>
    rw [foldlM_cons, collect_eq]
    by_cases hbit : HasBit f.fd
    · rw [if_pos hbit, Option.bind_eq_bind, Option.bind_some, ih]
      simp [hbit]
    · simp [hbit]

/-- A set of which every round adds the descriptors of the entries that ask for it. -/
theorem mem_foldl_add {set : Collected → Finset Int} {asks : PollFd → Bool}
    (hadd : ∀ c f, set (c.add f) = if asks f then insert f.fd (set c) else set c)
    (c : Collected) (fds : List PollFd) (fd : Int) :
    fd ∈ set (fds.foldl Collected.add c) ↔ fd ∈ set c ∨ ∃ f ∈ fds, f.fd = fd ∧ asks f := by
  induction fds generalizing c with
  | nil => simp
  | cons f fds ih =>
    rw [foldl_cons, ih, hadd]
    cases hasks : asks f with
    | true =>
      simp only [if_true, Finset.mem_insert, exists_mem_cons_iff, hasks, and_true,
        eq_comm (a := fd)]
      tauto
    | false => simp [hasks]

theorem le_maxfd_foldl_add (c : Collected) (fds : List PollFd) :
    c.maxfd ≤ (fds.foldl Collected.add c).maxfd ∧
      ∀ f ∈ fds, f.fd ≤ (fds.foldl Collected.add c).maxfd := by
  induction fds generalizing c with
  | nil => simp
  | cons f fds ih =>
    obtain ⟨hle, hall⟩ := ih (c.add f)
    have hmax : max c.maxfd f.fd ≤ (fds.foldl Collected.add (c.add f)).maxfd := hle
    refine ⟨(le_max_left _ _).trans hmax, fun g hg => ?_⟩
    rcases mem_cons.mp hg with rfl | hg
    · exact (le_max_right _ _).trans hmax
    · exact hall g hg

theorem requests_collected {fds : List PollFd} (h : ∀ f ∈ fds, HasBit f.fd) (timeout : Int) :
    Requests fds ((fds.foldl Collected.add {}).call timeout) := by
  have hset (set : Collected → Finset Int) (asks : PollFd → Bool)
      (hadd : ∀ c f, set (c.add f) = if asks f then insert f.fd (set c) else set c)
      (hempty : set {} = ∅) (fd : Int) :
      fd ∈ set (fds.foldl Collected.add {}) ↔ 0 ≤ fd ∧ ∃ f ∈ fds, f.fd = fd ∧ asks f := by
    rw [mem_foldl_add hadd, hempty]
    constructor
    · rintro (hfd | ⟨f, hf, rfl, hasks⟩)
      · cases hfd
      · exact ⟨(h f hf).1, f, hf, rfl, hasks⟩
    · exact fun hfd => .inr hfd.2
  refine ⟨hset Collected.readFds PollFd.reads (fun _ _ => rfl) rfl,
    hset Collected.writeFds PollFd.writes (fun _ _ => rfl) rfl, fun fd => ?_, fun f hf => ?_⟩
  · refine (hset Collected.exceptFds (fun _ => true) (fun _ _ => rfl) rfl fd).trans ?_
    simp only [and_true]
  · exact Int.lt_add_one_of_le ((le_maxfd_foldl_add {} fds).2 f hf)

section Count
variable {call : SelectCall} (r : Ready call)

def Ready.fds : Finset Int := r.readFds ∪ r.writeFds ∪ r.exceptFds

def Ready.sets (fd : Int) : Nat :=
  (if fd ∈ r.readFds then 1 else 0) + (if fd ∈ r.writeFds then 1 else 0) +
    if fd ∈ r.exceptFds then 1 else 0

theorem card_eq_sum_mem {s t : Finset Int} (h : s ⊆ t) :
    s.card = ∑ fd ∈ t, if fd ∈ s then 1 else 0 := by
  rw [Finset.sum_ite_mem, Finset.inter_eq_right.mpr h, Finset.card_eq_sum_ones]

theorem card_ready :
    r.readFds.card + r.writeFds.card + r.exceptFds.card = ∑ fd ∈ r.fds, r.sets fd := by
  have hread : r.readFds ⊆ r.fds := Finset.subset_union_left.trans Finset.subset_union_left
  have hwrite : r.writeFds ⊆ r.fds := Finset.subset_union_right.trans Finset.subset_union_left
  have hexcept : r.exceptFds ⊆ r.fds := Finset.subset_union_right
  rw [card_eq_sum_mem hread, card_eq_sum_mem hwrite, card_eq_sum_mem hexcept,
    ← Finset.sum_add_distrib, ← Finset.sum_add_distrib]
  rfl

theorem countP_mem (s : Finset Int) (fds : List PollFd) :
    fds.countP (fun f => f.fd ∈ s) = ∑ fd ∈ s, fds.countP (fun f => f.fd = fd) := by
  induction fds with
  | nil => simp
  | cons f fds ih =>
    have hone : (if f.fd ∈ s then 1 else 0) = ∑ fd ∈ s, if f.fd = fd then 1 else 0 :=
      (Finset.sum_ite_eq s f.fd fun _ => 1).symm
    simp only [countP_cons, decide_eq_true_eq, ih, Finset.sum_add_distrib, hone]

theorem revents_ne_zero_iff (f : PollFd) :
    (setRevents r.readFds r.writeFds r.exceptFds f).revents ≠ 0 ↔ f.fd ∈ r.fds := by
  rw [Ready.fds, Finset.mem_union, Finset.mem_union, setRevents]
  by_cases hread : f.fd ∈ r.readFds <;> by_cases hwrite : f.fd ∈ r.writeFds <;>
    by_cases hexcept : f.fd ∈ r.exceptFds <;>
    simp [hread, hwrite, hexcept, pollIn, pollOut, pollErr]

theorem countP_revents (fds : List PollFd) :
    (fds.map (setRevents r.readFds r.writeFds r.exceptFds)).countP (fun f => f.revents ≠ 0) =
      ∑ fd ∈ r.fds, fds.countP (fun f => f.fd = fd) := by
  rw [countP_map, ← countP_mem]
  refine countP_congr fun f _ => ?_
  simpa using revents_ne_zero_iff r f

end Count

section Call
variable {select : Select} {fds : List PollFd} {timeout : Int}

theorem pollViaSelect_of_no_bit (h : ¬ ∀ f ∈ fds, HasBit f.fd) :
    pollViaSelect select fds timeout = none := by
  rw [pollViaSelect, foldlM_collect, if_neg h]
  rfl

theorem pollViaSelect_of_failed (h : ∀ f ∈ fds, HasBit f.fd)
    (hselect : select ((fds.foldl Collected.add {}).call timeout) = none) :
    ∃ p, pollViaSelect select fds timeout = some p ∧ p.ret = -1 := by
  rw [pollViaSelect, foldlM_collect, if_pos h, Option.bind_eq_bind, Option.bind_some]
  simp only [hselect]
  exact ⟨_, rfl, rfl⟩

theorem pollViaSelect_of_ready (h : ∀ f ∈ fds, HasBit f.fd)
    {r : Ready ((fds.foldl Collected.add {}).call timeout)}
    (hselect : select ((fds.foldl Collected.add {}).call timeout) = some r) :
    pollViaSelect select fds timeout = some {
      call := (fds.foldl Collected.add {}).call timeout
      ret := r.readFds.card + r.writeFds.card + r.exceptFds.card
      fds := fds.map (setRevents r.readFds r.writeFds r.exceptFds) } := by
  rw [pollViaSelect, foldlM_collect, if_pos h, Option.bind_eq_bind, Option.bind_some]
  simp only [hselect]
  rfl

end Call

/-- What the call is right for. -/
def PollsAsSelect (select : Select) (fds : List PollFd) (timeout : Int) : Prop :=
  (∀ f ∈ fds, HasBit f.fd) ∧ 0 ≤ timeout ∧
    ∃ r, select ((fds.foldl Collected.add {}).call timeout) = some r ∧
      ∑ fd ∈ r.fds, r.sets fd = ∑ fd ∈ r.fds, fds.countP (fun f => f.fd = fd)

/-- **`poll_via_select` does what `poll` should exactly if** descriptors and timeout are in range,
`select` succeeds, and each entry that is ready counts once. -/
theorem poll_via_select_iff (select : Select) (fds : List PollFd) (timeout : Int) :
    PollsRight select fds timeout ↔ PollsAsSelect select fds timeout := by
  constructor
  · rintro ⟨p, hp, hright⟩
    have hbits : ∀ f ∈ fds, HasBit f.fd := by
      by_contra hno
      rw [pollViaSelect_of_no_bit hno] at hp
      cases hp
    rcases hselect : select ((fds.foldl Collected.add {}).call timeout) with _ | r
    · obtain ⟨q, hq, hret⟩ := pollViaSelect_of_failed hbits hselect
      obtain rfl := Option.some.inj (hq.symm.trans hp)
      have hcount := hright.count
      omega
    · rw [pollViaSelect_of_ready hbits hselect] at hp
      obtain rfl := Option.some.inj hp
      refine ⟨hbits, ?_, r, hselect, ?_⟩
      · by_contra hnegative
        cases hright.blocks (not_le.mp hnegative)
      · have hcount := hright.count
        rw [countP_revents] at hcount
        dsimp only at hcount
        rw [← card_ready]
        exact_mod_cast hcount
  · rintro ⟨hbits, htimeout, r, hselect, hsum⟩
    refine ⟨_, pollViaSelect_of_ready hbits hselect, ?_, ?_, ?_, ?_,
      requests_collected hbits timeout⟩
    · rw [countP_revents, ← hsum, ← card_ready]
      rfl
    · rw [map_map]
      rfl
    · intro f hf hnegative
      obtain ⟨g, hg, rfl⟩ := mem_map.mp hf
      exact absurd (hbits g hg).1 (not_le.mpr hnegative)
    · exact fun h => absurd htimeout (not_le.mpr h)

def allReady : Select := fun call => some {
  readFds := call.readFds
  writeFds := call.writeFds
  exceptFds := ∅
  read_subset := subset_rfl
  write_subset := subset_rfl
  except_subset := Finset.empty_subset _ }

/-- One entry that is ready for both counts twice, a negative timeout is passed on, and a negative
descriptor is outside of the sets. -/
theorem poll_counts_twice :
    (pollViaSelect allReady [⟨3, pollIn ||| pollOut, 0⟩] 0).map
        (fun p => (p.ret, p.fds.countP (fun f => f.revents ≠ 0))) = some (2, 1) ∧
      ¬ PollsRight allReady [⟨3, pollIn ||| pollOut, 0⟩] 0 ∧
      (pollViaSelect allReady [⟨3, pollIn, 0⟩] (-1)).map (fun p => p.call.timeout) =
        some (some ⟨0, -1000⟩) ∧
      (pollViaSelect allReady [⟨-1, pollIn, 0⟩] 0).isNone := by
  have htwice : (pollViaSelect allReady [⟨3, pollIn ||| pollOut, 0⟩] 0).map
      (fun p => (p.ret, p.fds.countP (fun f => f.revents ≠ 0))) = some (2, 1) := by
    decide +kernel
  refine ⟨htwice, ?_, by decide +kernel, by decide +kernel⟩
  rintro ⟨p, hp, hright⟩
  rw [hp, Option.map_some, Option.some.injEq, Prod.mk.injEq] at htwice
  have hcount := hright.count
  rw [htwice.1, htwice.2] at hcount
  cases hcount

end LibcShim
