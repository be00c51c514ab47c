import McpeLauncher.EventManager

/-! # How long the tasks run

The loops of the tasks go on as long as there are events. Of a first event that is too long the list
is empty: the server takes it, nothing is removed, and the loop does the same again. -/
namespace Cll
open List MultiFileEventBatch EventManager EventUploader

variable {ls : List (List UInt8)} {maxSize : Nat} {lineLimit : Nat → Nat}

namespace EventUploader

section
variable {σ ℓ ε : Type} {B : UploadBatch σ ℓ} {Holds : σ → List (List UInt8) → Prop}
  {Out : ℓ → σ → Prop} {Fits : σ → Nat → Prop} {s : σ} (hB : B.IsStore Holds Out) (h : Holds s ls)
include hB h

theorem maxSize_pos (hne : ls ≠ []) (hfits : ∀ d ∈ ls, d.length ≤ maxSize) : 0 < maxSize := by
  obtain ⟨d, rest, rfl⟩ := exists_cons_of_ne_nil hne
  obtain ⟨t, _, hd⟩ := hB.isLine h d mem_cons_self
  have := hfits d mem_cons_self
  rw [hd, length_append, length_singleton] at this
  omega

theorem sendEvents_shrinks (hL : B.Lists Holds lineLimit Fits) (hD : B.Drains Holds lineLimit)
    {u : EventUploader ε} (hu : u.AlwaysOk) {maxCount L : Nat} (hcount : 0 < maxCount)
    (hsize : L ≤ maxSize) (hlimit : L ≤ lineLimit maxSize) (hfits : ∀ d ∈ ls, d.length ≤ L)
    (hhas : B.hasEvents s = true) (fuel : Nat) (e : ε) :
    (sendEvents B u maxCount maxSize (fuel + 1) s e).outcome = .returned .success ∧
      ∃ rest, Holds (sendEvents B u maxCount maxSize (fuel + 1) s e).batch rest ∧
        rest.length < ls.length ∧ ∀ d ∈ rest, d.length ≤ L := by
  have hne := (hD.hasEvents h).mp hhas
  have hpos := maxSize_pos hB h hne fun d hd => le_trans (hfits d hd) hsize
  have hlines : ∀ d ∈ ls, d.length ≤ lineLimit maxSize := fun d hd =>
    le_trans (hfits d hd) hlimit
  have hok := sendEvents_of_alwaysOk hD hu hcount hlines hne fuel h e
  obtain ⟨removed, rest, hremoved, hperm, hrest⟩ :=
    sendEvents_progress hB hL hcount hpos hne h (hL.fits h hlines) u (fuel + 1) e hok
  refine ⟨hok, rest, hrest, ?_, fun d hd => ?_⟩
  · rw [hperm.length_eq, length_append]
    have := length_pos_iff.mpr hremoved
    omega
  · exact hfits d (hperm.mem_iff.mpr (mem_append_right _ hd))

end

end EventUploader

/-- What the loops need of a batch on disk. -/
structure StorageBatch.Uploads {σ ℓ : Type} (S : StorageBatch σ ℓ)
    (Holds : σ → List (List UInt8) → Prop) (Out : ℓ → σ → Prop) (lineLimit : Nat → Nat) :
    Prop where
  isStore : S.toUploadBatch.IsStore Holds Out
  lists : ∃ Fits, S.toUploadBatch.Lists Holds lineLimit Fits
  drains : S.toUploadBatch.Drains Holds lineLimit
  setFileLimits {s ls} (maxEvents maxSize) : Holds s ls →
    Holds (S.setFileLimits maxEvents maxSize s) ls

theorem MultiFileEventBatch.eventBatch_listsFrom_tidy :
    eventBatch.ListsFrom Tidy (fun l s => Listed l s.1 s.2) listing :=
  eventBatch_listsFrom.of_imp fun h => h.represents

theorem MultiFileEventBatch.storageBatch_uploads :
    storageBatch.Uploads Tidy
      (fun l s => Listed l s.1 s.2)
      (fun maxSize => min maxSize (1024 * 1024)) where
  isStore := eventBatch_isStore_tidy
  lists := ⟨_, MultiFileEventBatch.eventBatch_listsFrom_tidy.lists eventBatch_isStore_tidy⟩
  drains := eventBatch_drains
  setFileLimits maxEvents maxSize h := h.setFileLimits maxEvents maxSize

theorem BufferedEventBatch.storageBatch_uploads :
    BufferedEventBatch.storageBatch.Uploads (BufferedEventBatch.Holds Tidy)
      (BufferedEventBatch.Out fun l s => Listed l s.1 s.2)
      (fun maxSize => min maxSize (1024 * 1024)) where
  isStore := BufferedEventBatch.uploadBatch_isStore eventBatch_isStore_tidy
  lists := ⟨_, BufferedEventBatch.uploadBatch_lists MultiFileEventBatch.eventBatch_listsFrom_tidy⟩
  drains := BufferedEventBatch.uploadBatch_drains eventBatch_drains
    fun _ => min_le_left _ _
  setFileLimits := by
    rintro b _ maxEvents maxSize ⟨wrapped, hw, rfl⟩
    exact ⟨wrapped, hw.setFileLimits maxEvents maxSize, rfl⟩

/-- The limits let an event of `L` bytes through. -/
def EventManager.Suits {ν κ : Type} (L : Nat) (m : EventManager ν κ) : Prop :=
  0 < m.uploaderMaxEvents ∧ L ≤ m.uploaderMaxSize

/-- So do all limits that are downloaded. -/
def Platform.Suits {ε : Type} (L : Nat) (w : Platform ε) : Prop :=
  ∀ e maxEvents maxSize, (w.downloadConfigs e).1 = some (maxEvents, maxSize) →
    0 < toSize maxEvents ∧ L ≤ toSize maxSize

namespace EventManager

section Loops
variable {ν κ ℓn ℓc ε : Type} {lib : EventJson} {N : StorageBatch ν ℓn} {K : StorageBatch κ ℓc}
  {w : Platform ε} {HoldsN : ν → List (List UInt8) → Prop} {HoldsK : κ → List (List UInt8) → Prop}
  {OutN : ℓn → ν → Prop} {OutK : ℓc → κ → Prop} {lineLimit : Nat → Nat} {L : Nat}
  {s : ManagerState ν κ ε} {rounds : Nat}

variable (HoldsN HoldsK L) in
/-- The main task has the events `lsN` and `lsK` to upload, and none is longer than
`L`. -/
structure Pending (s : ManagerState ν κ ε) (lsN lsK : List (List UInt8)) : Prop where
  normal : HoldsN s.manager.normalStorageBatch lsN
  critical : HoldsK s.manager.criticalStorageBatch lsK
  suits : s.manager.Suits L
  fitsNormal : ∀ d ∈ lsN, d.length ≤ L
  fitsCritical : ∀ d ∈ lsK, d.length ≤ L

theorem updateConfigIfNeeded_cases (s : ManagerState ν κ ε) :
    (∃ e, updateConfigIfNeeded N K w s = { s with env := e }) ∨
      ∃ maxEvents maxSize e, (w.downloadConfigs s.env).1 = some (maxEvents, maxSize) ∧
        updateConfigIfNeeded N K w s =
          { s with
            manager := onConfigurationUpdated N K maxEvents maxSize s.manager
            env := e } := by
  rw [updateConfigIfNeeded]
  rcases w.downloadConfigs s.env with ⟨_ | ⟨maxEvents, maxSize⟩, e⟩
  · exact .inl ⟨e, rfl⟩
  · exact .inr ⟨maxEvents, maxSize, e, rfl, rfl⟩

theorem Pending.updateConfigIfNeeded (hN : N.Uploads HoldsN OutN lineLimit)
    (hK : K.Uploads HoldsK OutK lineLimit) (hw : w.Suits L) {lsN lsK : List (List UInt8)}
    (h : Pending HoldsN HoldsK L s lsN lsK) :
    Pending HoldsN HoldsK L (updateConfigIfNeeded N K w s) lsN lsK := by
  rcases updateConfigIfNeeded_cases s with ⟨e, heq⟩ | ⟨maxEvents, maxSize, e, hconfig, heq⟩
  · rw [heq]
    exact ⟨h.normal, h.critical, h.suits, h.fitsNormal, h.fitsCritical⟩
  · rw [heq]
    exact ⟨hN.setFileLimits _ _ h.normal, hK.setFileLimits _ _ h.critical,
      hw s.env maxEvents maxSize hconfig, h.fitsNormal, h.fitsCritical⟩

section MainTask
variable (hN : N.Uploads HoldsN OutN lineLimit) (hK : K.Uploads HoldsK OutK lineLimit)
  (hu : w.uploader.AlwaysOk) (hlimit : ∀ maxSize, L ≤ maxSize → L ≤ lineLimit maxSize)
  {s : ManagerState ν κ ε} {lsN lsK : List (List UInt8)}

include hK hu hlimit in
theorem Pending.sendCritical (h : Pending HoldsN HoldsK L s lsN lsK)
    (hhas : K.hasEvents s.manager.criticalStorageBatch = true) (fuel : Nat) :
    (sendCritical K w (fuel + 1) s).1 = .returned .success ∧
      ∃ rest, rest.length < lsK.length ∧
        Pending HoldsN HoldsK L (sendCritical K w (fuel + 1) s).2 lsN rest := by
  obtain ⟨hevents, hsize⟩ := h.suits
  obtain ⟨_, hlists⟩ := hK.lists
  obtain ⟨hok, rest, hrest, hlt, hfits⟩ := sendEvents_shrinks hK.isStore h.critical
    hlists hK.drains hu hevents hsize (hlimit _ hsize) h.fitsCritical hhas fuel s.env
  exact ⟨hok, rest, hlt, h.normal, hrest, h.suits, h.fitsNormal, hfits⟩

include hN hu hlimit in
theorem Pending.sendNormal (h : Pending HoldsN HoldsK L s lsN lsK)
    (hhas : N.hasEvents s.manager.normalStorageBatch = true) (fuel : Nat) :
    (sendNormal N w (fuel + 1) s).1 = .returned .success ∧
      ∃ rest, rest.length < lsN.length ∧
        Pending HoldsN HoldsK L (sendNormal N w (fuel + 1) s).2 rest lsK := by
  obtain ⟨hevents, hsize⟩ := h.suits
  obtain ⟨_, hlists⟩ := hN.lists
  obtain ⟨hok, rest, hrest, hlt, hfits⟩ := sendEvents_shrinks hN.isStore h.normal
    hlists hN.drains hu hevents hsize (hlimit _ hsize) h.fitsNormal hhas fuel s.env
  exact ⟨hok, rest, hlt, hrest, h.critical, h.suits, hfits, h.fitsCritical⟩

include hN hK hu hlimit in
theorem uploadTasksRound_advances (hw : w.Suits L) (fuel : Nat) {s : Backoff ν κ ε}
    (h : Pending HoldsN HoldsK L s.toManagerState lsN lsK) :
    (∃ s', uploadTasksRound N K w (fuel + 1) s = .done s') ∨
      ∃ s' lsN' lsK', uploadTasksRound N K w (fuel + 1) s = .again s' ∧
        lsN'.length + lsK'.length < lsN.length + lsK.length ∧
        Pending HoldsN HoldsK L s'.toManagerState lsN' lsK' := by
  simp only [uploadTasksRound]
  split
  · -- the state after the check for a new configuration
    have h₁ : Pending HoldsN HoldsK L { s.toManagerState with env := (w.isStopping s.env).2 }
        lsN lsK := ⟨h.normal, h.critical, h.suits, h.fitsNormal, h.fitsCritical⟩
    have h₂ := h₁.updateConfigIfNeeded hN hK hw
    split
    · next hhas =>
      obtain ⟨hok, rest, hlt, hrest⟩ := h₂.sendCritical hK hu hlimit hhas fuel
      simp only [hok, backOff]
      exact .inr ⟨_, lsN, rest, rfl, Nat.add_lt_add_left hlt _, hrest⟩
    · split
      · next hhas =>
        obtain ⟨hok, rest, hlt, hrest⟩ := h₂.sendNormal hN hu hlimit hhas fuel
        simp only [hok, backOff]
        exact .inr ⟨_, rest, lsK, rfl, Nat.add_lt_add_right hlt _, hrest⟩
      · exact .inl ⟨_, rfl⟩
  · exact .inl ⟨_, rfl⟩

include hN hK hu hlimit in
theorem uploadTasks_finishes (hw : w.Suits L) (fuel : Nat) (h : Pending HoldsN HoldsK L s lsN lsK)
    (hrounds : lsN.length + lsK.length < rounds) :
    ∃ s' n, uploadTasks N K w rounds (fuel + 1) s = (.done s', n) ∧
      n ≤ lsN.length + lsK.length := by
  let Inv : Backoff ν κ ε → Nat → Prop := fun s k =>
    ∃ lsN lsK, k = lsN.length + lsK.length ∧ Pending HoldsN HoldsK L s.toManagerState lsN lsK
  refine Runs.runLoop_finishes Inv ?_
    ⟨lsN, lsK, rfl, h.updateConfigIfNeeded hN hK hw⟩ hrounds
  rintro s _ ⟨lsN, lsK, rfl, h⟩
  rcases uploadTasksRound_advances hN hK hu hlimit hw fuel h with
    hdone | ⟨s', lsN', lsK', hagain, hlt, h'⟩
  · exact .inl hdone
  · exact .inr ⟨s', _, hagain, hlt, lsN', lsK', rfl, h'⟩

end MainTask

/-- The realtime task has events to upload, and none is longer than `L`. -/
def PendingRealtime (L : Nat) (s : ManagerState ν κ ε) : Prop :=
  s.manager.Suits L ∧ ∀ d ∈ s.manager.realtimeMemoryBatch.lines, d.length ≤ L

theorem PendingRealtime.updateConfigIfNeeded (hw : w.Suits L) (h : PendingRealtime L s) :
    PendingRealtime L (updateConfigIfNeeded N K w s) ∧
      (EventManager.updateConfigIfNeeded N K w s).manager.realtimeMemoryBatch =
        s.manager.realtimeMemoryBatch := by
  rcases updateConfigIfNeeded_cases s with ⟨e, heq⟩ | ⟨maxEvents, maxSize, e, hconfig, heq⟩
  · rw [heq]
    exact ⟨h, rfl⟩
  · rw [heq]
    exact ⟨⟨hw s.env maxEvents maxSize hconfig, h.2⟩, rfl⟩

section
variable (hu : w.uploader.AlwaysOk) {s : ManagerState ν κ ε}
include hu

theorem PendingRealtime.sendRealtime (h : PendingRealtime L s)
    (hhas : s.manager.realtimeMemoryBatch.hasEvents = true) (fuel : Nat) :
    (sendRealtime w (fuel + 1) s).1 = .returned .success ∧
      (sendRealtime w (fuel + 1) s).2.manager.realtimeMemoryBatch.lines.length <
        s.manager.realtimeMemoryBatch.lines.length ∧
      PendingRealtime L (sendRealtime w (fuel + 1) s).2 := by
  obtain ⟨⟨hevents, hsize⟩, hfits⟩ := h
  obtain ⟨hok, rest, hrest, hlt, hfits⟩ := sendEvents_shrinks
    MemoryEventBatch.eventBatch_isQueue.isStore rfl
    (MemoryEventBatch.eventBatch_listsFrom.lists MemoryEventBatch.eventBatch_isQueue.isStore)
    MemoryEventBatch.eventBatch_drains hu hevents hsize hsize hfits hhas fuel s.env
  subst hrest
  exact ⟨hok, hlt, ⟨hevents, hsize⟩, hfits⟩

theorem uploadRealtimeTasksRound_advances (hw : w.Suits L) (fuel : Nat) (h : PendingRealtime L s) :
    (∃ s', uploadRealtimeTasksRound lib N K w (fuel + 1) s = .done s') ∨
      ∃ s', uploadRealtimeTasksRound lib N K w (fuel + 1) s = .again s' ∧
        s'.manager.realtimeMemoryBatch.lines.length <
          s.manager.realtimeMemoryBatch.lines.length ∧ PendingRealtime L s' := by
  simp only [uploadRealtimeTasksRound]
  split
  · next hhas =>
    obtain ⟨h₂, hsame⟩ := h.updateConfigIfNeeded (N := N) (K := K) hw
    rw [← hsame] at hhas ⊢
    obtain ⟨hok, hlt, h₃⟩ := h₂.sendRealtime hu hhas fuel
    rcases hsend : EventManager.sendRealtime w (fuel + 1) (updateConfigIfNeeded N K w s) with
      ⟨outcome, s'⟩
    rw [hsend] at hok hlt h₃
    obtain rfl : outcome = .returned .success := hok
    exact .inr ⟨s', rfl, hlt, h₃⟩
  · exact .inl ⟨_, rfl⟩

theorem uploadRealtimeTasks_finishes (hw : w.Suits L) (fuel : Nat) (h : PendingRealtime L s)
    (hrounds : s.manager.realtimeMemoryBatch.lines.length < rounds) :
    ∃ s' n, uploadRealtimeTasks lib N K w rounds (fuel + 1) s = (.done s', n) ∧
      n ≤ s.manager.realtimeMemoryBatch.lines.length := by
  let Inv : ManagerState ν κ ε → Nat → Prop := fun s k =>
    k = s.manager.realtimeMemoryBatch.lines.length ∧ PendingRealtime L s
  refine Runs.runLoop_finishes Inv ?_ ⟨rfl, h⟩ hrounds
  rintro s _ ⟨rfl, h⟩
  rcases uploadRealtimeTasksRound_advances hu hw fuel h with hdone | ⟨s', hagain, hlt, h'⟩
  · exact .inl hdone
  · exact .inr ⟨s', _, hagain, hlt, rfl, h'⟩

end

end Loops

end EventManager

/-- The normal events `lsN` and the critical `lsK`; no file but the newest is empty, and no event is
longer than `L`. -/
def EventManager.PendingFiles {ε : Type} (L : Nat)
    (s : ManagerState (BufferedEventBatch (MultiFileEventBatch × Directory))
      (MultiFileEventBatch × Directory) ε) (lsN lsK : List (List UInt8)) : Prop :=
  EventManager.Pending (BufferedEventBatch.Holds MultiFileEventBatch.Tidy)
    MultiFileEventBatch.Tidy L s lsN lsK

/-- **Uploads make progress**: a success removes an event exactly if the first one is short enough
to be listed. Where every pending event is, and with a server that takes everything, both tasks end
after at most as many rounds as there are events. -/
theorem uploads_advance {ε : Type} (lib : EventJson) (w : Platform ε) (fuel : Nat) :
    (∀ (k : BatchKind) (s : k.State) (ls : List (List UInt8)), k.Holds s ls → ls ≠ [] →
      ∀ (maxCount maxSize : Nat) (e : ε), 0 < maxCount → 0 < maxSize →
      ((∀ (u : EventUploader ε) (fuel : Nat),
        (sendEvents k.uploadBatch u maxCount maxSize fuel s e).outcome = .returned .success →
        ∃ removed rest, removed ≠ [] ∧ ls.Perm (removed ++ rest) ∧
          k.Holds (sendEvents k.uploadBatch u maxCount maxSize fuel s e).batch rest) ↔
        k.FirstFits s maxSize)) ∧
    ∀ (L : Nat) (s : ManagerState (BufferedEventBatch (MultiFileEventBatch × Directory))
        (MultiFileEventBatch × Directory) ε),
      w.uploader.AlwaysOk → w.Suits L → ∀ rounds,
      (∀ lsN lsK, PendingFiles L s lsN lsK → L ≤ 1024 * 1024 →
        lsN.length + lsK.length < rounds →
        ∃ s' n, uploadTasks BufferedEventBatch.storageBatch
            storageBatch w rounds (fuel + 1) s = (.done s', n) ∧
          n ≤ lsN.length + lsK.length) ∧
      (PendingRealtime L s → s.manager.realtimeMemoryBatch.lines.length < rounds →
        ∃ s' n, uploadRealtimeTasks lib BufferedEventBatch.storageBatch
            storageBatch w rounds (fuel + 1) s = (.done s', n) ∧
          n ≤ s.manager.realtimeMemoryBatch.lines.length) := by
  constructor
  · intro k s ls h hne maxCount maxSize e hcount hsize
    obtain ⟨_, hlists⟩ := k.lists
    exact sendEvents_progress_iff k.isStore hlists hcount hsize hne h k.holds_unique e
  · intro L s hu hw rounds
    constructor
    · intro lsN lsK h hL hrounds
      refine uploadTasks_finishes BufferedEventBatch.storageBatch_uploads
        MultiFileEventBatch.storageBatch_uploads hu (fun maxSize hle => ?_) hw fuel h hrounds
      exact Nat.le_min.mpr ⟨hle, hL⟩
    · intro h hrounds
      exact uploadRealtimeTasks_finishes hu hw fuel h hrounds

def Platform.ofOk : Platform Unit where
  uploader := .ofOk
  downloadConfigs e := (none, e)
  isStopping e := (false, e)
  sleep _ e := e
  requestRun _ _ e := e

/-- A manager with an event in a file and one in the realtime queue. -/
def EventManager.ofTwo (maxSize : Int32) :
    ManagerState (BufferedEventBatch (MultiFileEventBatch × Directory))
      (MultiFileEventBatch × Directory) Unit where
  manager :=
    { EventManager.construct (.construct 0 "Linux" "5.0") 500 maxSize []
        [(0, BufferedEventBatch.firstEvent.line)] with
      realtimeMemoryBatch := ⟨[BufferedEventBatch.firstEvent], 50⟩ }
  env := ()
  reported := []

theorem MultiFileEventBatch.Represents.tidy {s : MultiFileEventBatch × Directory}
    (h : s.1.Represents s.2 ls) (hone : s.2.length = 1) : Tidy s ls := by
  obtain ⟨⟨front, olds, newest, hlayout⟩, hls⟩ := h
  refine ⟨⟨front, olds, newest, hlayout, ?_⟩, hls⟩
  have hlength := congrArg length hlayout.dir_eq
  simp only [length_append, length_singleton] at hlength
  have hfront : front = [] := eq_nil_of_length_eq_zero (by omega)
  have holds : olds = [] := eq_nil_of_length_eq_zero (by omega)
  simp [hfront, holds]

theorem EventManager.ofTwo_pending :
    PendingFiles 100 (ofTwo 6400) []
      [BufferedEventBatch.firstEvent.line] where
  normal := by
    refine ⟨[], MultiFileEventBatch.Represents.tidy ?_ rfl, rfl⟩
    exact construct_represents 500 6400 (by simp [Directory.Ordered]) (by simp)
  critical := by
    refine MultiFileEventBatch.Represents.tidy ?_ rfl
    have hevents : Directory.events [(0, BufferedEventBatch.firstEvent.line)] =
        [BufferedEventBatch.firstEvent.line] := by decide
    exact construct_represents 500 6400 (by simp [Directory.Ordered])
      (by decide)
  suits := ⟨by decide, by decide⟩
  fitsNormal := by simp
  fitsCritical := by decide

theorem uploads_advance_two :
    (∃ removed rest, removed ≠ [] ∧ [BufferedEventBatch.firstEvent.line].Perm (removed ++ rest) ∧
      FileEventBatch.Holds (sendEvents FileEventBatch.eventBatch.plain .ofOk 1 100 1
        oneEventFile ()).batch rest) ∧
    (∃ s' n, uploadTasks BufferedEventBatch.storageBatch
      storageBatch .ofOk 2 1 (ofTwo 6400) = (.done s', n) ∧
      n ≤ 1) ∧
    ∃ s' n, uploadRealtimeTasks .flagsOnly BufferedEventBatch.storageBatch
      storageBatch .ofOk 2 1 (ofTwo 6400) = (.done s', n) ∧
        n ≤ 1 := by
  have hok : Platform.ofOk.uploader.AlwaysOk := fun _ _ => ⟨_, rfl, rfl⟩
  have hsuits : Platform.ofOk.Suits 100 := fun _ _ _ h => absurd h (by simp [Platform.ofOk])
  obtain ⟨hsend, hloops⟩ := uploads_advance .flagsOnly .ofOk 0
  obtain ⟨hmain, hrealtime⟩ := hloops 100 (ofTwo 6400) hok hsuits 2
  refine ⟨?_, ?_, ?_⟩
  · have hfits : ∀ d ∈ (FileEventBatch.listing.listed oneEventFile).head?,
        d.length ≤ FileEventBatch.listing.lineLimit 100 := by decide
    exact (hsend (.plain .file) oneEventFile _ oneEventFile_holds (by simp) 1 100 () (by decide)
      (by decide)).mpr hfits .ofOk 1 rfl
  · exact hmain [] _ ofTwo_pending (by decide) (by decide)
  · exact hrealtime ⟨⟨by decide, by decide⟩, by decide⟩ (by decide)

/-- **An event that is too long stops the realtime task**: its list is empty, the server takes it,
and the loop goes on for ever. -/
theorem uploads_stall :
    let m : MemoryEventBatch := ⟨[BufferedEventBatch.firstEvent], 50⟩
    let r := sendEvents MemoryEventBatch.eventBatch.plain .ofOk 500 3 1 m ()
    r.outcome = .returned .success ∧
      (¬ ∃ removed rest, removed ≠ [] ∧ m.lines.Perm (removed ++ rest) ∧ r.batch.lines = rest) ∧
      ∀ rounds, uploadRealtimeTasks .flagsOnly BufferedEventBatch.storageBatch
        storageBatch .ofOk rounds 1 (ofTwo 3) =
          (.again (ofTwo 3), rounds) := by
  intro m r
  have hbatch : r.batch = m := rfl
  refine ⟨rfl, ?_, fun rounds => ?_⟩
  · rintro ⟨removed, rest, hremoved, hperm, hrest⟩
    have hlength := hperm.length_eq
    rw [← hrest, hbatch, length_append] at hlength
    have hpos := length_pos_iff.mpr hremoved
    omega
  · induction rounds with
    | zero => rfl
    | succ rounds ih =>
      have hround : uploadRealtimeTasksRound .flagsOnly
          BufferedEventBatch.storageBatch storageBatch .ofOk 1
          (ofTwo 3) = .again (ofTwo 3) := rfl
      rw [uploadRealtimeTasks] at ih ⊢
      simp only [Runs.runLoop, hround, ih]

end Cll
