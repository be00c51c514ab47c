import McpeLauncher.BufferedEventBatch
import McpeLauncher.EventUploader

/-! # The batches that are uploaded

What `EventUploader` needs of a batch, for the four implementations. With a limit of no event, files
and memory give no list, which the uploader takes for an event too long to be listed. -/
namespace Cll
open List BufferedEventBatch MemoryEventBatch Lines

/-! ## One file -/

namespace FileEventBatch

/-- The file holds the lines `ls`, or it is closed. -/
def Holds (s : FileEventBatch × List UInt8) (ls : List (List UInt8)) : Prop :=
  s.1.Represents s.2 ls ∨ s.1.fd = none ∧ s.1.fileSize = 0 ∧ ls = []

/-- The list is of the file, which is open. -/
def Out (l : VectorBatchedEventList) (s : FileEventBatch × List UInt8) : Prop :=
  s.1.fd ≠ none ∧ Listed l s.1 (Lines.lines 10 s.2)

theorem getEventsForUpload_closed {s : FileEventBatch × List UInt8} (hfd : s.1.fd = none)
    (maxCount maxSize : Nat) :
    eventBatch.plain.getEventsForUpload maxCount maxSize s = (none, s) := by
  have hlist : s.1.getEventsForUpload s.2 maxCount maxSize = (none, s.1) := if_pos (.inl hfd)
  simp only [EventBatch.plain, eventBatch, hlist]

theorem eventBatch_isStore : eventBatch.plain.IsStore Holds Out where
  isLine := by
    rintro s ls (h | ⟨_, _, rfl⟩)
    · exact h.isLine
    · simp
  getEventsForUpload := by
    rintro ⟨b, content⟩ ls maxCount maxSize (h | ⟨hfd, hsize, rfl⟩)
    · exact .inl (h.getEventsForUpload maxCount maxSize)
    · rw [getEventsForUpload_closed hfd]
      exact .inr ⟨hfd, hsize, rfl⟩
  out := by
    rintro ⟨b, content⟩ ls l maxCount maxSize (h | ⟨hfd, _, _⟩) hl _
    · refine ⟨(h.getEventsForUpload maxCount maxSize).fd_ne, ?_⟩
      simp only [EventBatch.plain, eventBatch, h.lines_eq] at hl ⊢
      exact h.listed hl
    · rw [getEventsForUpload_closed hfd] at hl
      exact absurd hl (by simp)
  onEventsUploaded := by
    rintro ⟨b, content⟩ ls l (h | ⟨hfd, _, _⟩) ⟨hopen, hl⟩
    · simp only [h.lines_eq] at hl
      obtain ⟨done, rest, rfl, hdata, hcount, hfresh⟩ := hl
      refine ⟨done, rest, List.Perm.refl _, hdata, hcount, ?_, .inl rfl⟩
      simp only [EventBatch.plain, eventBatch]
      by_cases hkeep : rest ≠ [] ∨ b.finalized = false
      · obtain ⟨b', hack, hb', _⟩ := h.onEventsUploaded hdata hcount hfresh hkeep []
        rw [map_nil] at hack
        rw [hack]
        exact .inl hb'
      · -- a finalized file is closed and removed with its last event
        simp only [not_or, not_not, Bool.not_eq_false] at hkeep
        obtain ⟨rfl, hfin⟩ := hkeep
        rw [append_nil] at h
        obtain ⟨b', hack, hno, hfd, _⟩ := h.onEventsUploaded_all hdata hfin []
        rw [hack]
        exact .inr ⟨hfd, by simpa [hasEvents] using hno, rfl⟩
    · exact absurd hfd hopen

def listing : Listing (FileEventBatch × List UInt8) where
  listed s := if s.1.fd = none then [] else lines 10 s.2
  later _ := false
  lineLimit maxSize := min maxSize (1024 * 1024)
  listsNothing := true

theorem Holds.listed_eq {s : FileEventBatch × List UInt8} {ls : List (List UInt8)}
    (h : Holds s ls) : listing.listed s = ls := by
  rcases h with h | ⟨hfd, _, rfl⟩
  · exact (if_neg h.fd_ne).trans h.lines_eq
  · exact if_pos hfd

theorem eventBatch_listsFrom : eventBatch.ListsFrom Holds Out listing := by
  refine .of_all eventBatch_isStore Holds.listed_eq (fun _ => rfl) ?_ ?_ fun _ => min_le_left _ _
  · rintro ⟨b, content⟩ ls (h | ⟨_, _, rfl⟩) hne
    · exact h.hasEvents_iff.mpr hne
    · exact absurd rfl hne
  · rintro ⟨b, content⟩ ls maxCount maxSize (h | ⟨hfd, _, rfl⟩)
    · have hcond : (ls = [] ∨ maxCount = 0 ∨ maxSize = 0 ∧ listing.listsNothing = false) ↔
          ls = [] ∨ maxCount = 0 := by simp [listing]
      change (b.getEventsForUpload content maxCount maxSize).1.map _ = _
      rw [h.getEventsForUpload_eq]
      by_cases hstop : ls = [] ∨ maxCount = 0
      · rw [if_pos hstop, if_pos (hcond.mpr hstop)]
        rfl
      · rw [if_neg hstop, if_neg (hcond.not.mpr hstop)]
        rfl
    · have hlist := congrArg Prod.fst (getEventsForUpload_closed hfd maxCount maxSize)
      change (eventBatch.getEventsForUpload maxCount maxSize (b, content)).1 = none at hlist
      rw [hlist, if_pos (.inl rfl)]
      rfl

end FileEventBatch

namespace MemoryEventBatch

/-- The list holds the first events in memory. -/
def Out (l : VectorBatchedEventList) (m : MemoryEventBatch) : Prop :=
  ∃ done, done <+: m.lines ∧ l.data = done.flatten ∧ l.events = done.length

theorem hasEvents_iff (m : MemoryEventBatch) : m.hasEvents = true ↔ m.lines ≠ [] := by
  simp [hasEvents, lines]

def listing : Listing MemoryEventBatch where
  listed := lines
  later _ := false
  lineLimit maxSize := maxSize
  listsNothing := false

theorem eventBatch_listsFrom :
    eventBatch.ListsFrom (fun m ls => m.lines = ls) Out listing := by
  refine .of_all eventBatch_isQueue.isStore id (fun _ => rfl) ?_ ?_ fun _ => le_rfl
  · rintro m _ rfl
    exact m.hasEvents_iff.mpr
  · rintro m _ maxCount maxSize rfl
    have hcond : (m.lines = [] ∨ maxCount = 0 ∨ maxSize = 0 ∧ listing.listsNothing = false) ↔
        m.lines = [] ∨ maxCount = 0 ∨ maxSize = 0 := by simp [listing]
    change (m.getEventsForUpload maxCount maxSize).map _ = _
    rw [m.getEventsForUpload_eq]
    by_cases hstop : m.lines = [] ∨ maxCount = 0 ∨ maxSize = 0
    · rw [if_pos hstop, if_pos (hcond.mpr hstop)]
      rfl
    · rw [if_neg hstop, if_neg (hcond.not.mpr hstop)]
      rfl

theorem eventBatch_drains :
    eventBatch.plain.Drains (fun m ls => m.lines = ls) (fun maxSize => maxSize) where
  hasEvents := by
    rintro m _ rfl
    exact m.hasEvents_iff
  lists := by
    rintro m _ maxCount maxSize rfl hne hcount hfits
    obtain ⟨d, rest, hlines⟩ := exists_cons_of_ne_nil hne
    have hsize : 0 < maxSize := by
      obtain ⟨t, _, hd⟩ := m.lines_isLine d (by rw [hlines]; exact mem_cons_self)
      have := hfits d (by rw [hlines]; exact mem_cons_self)
      rw [hd, length_append, length_singleton] at this
      omega
    obtain ⟨l, hl⟩ := Option.ne_none_iff_exists'.mp fun hnone => by
      rcases (eventBatch_listsFrom.eq_none rfl maxCount maxSize).mp hnone with
        hnil | hzero | ⟨hzero, _⟩
      · exact hne hnil
      · omega
      · omega
    exact ⟨l, hl, rfl⟩

end MemoryEventBatch

/-! ## Numbered files -/

namespace MultiFileEventBatch
variable {m : MultiFileEventBatch} {dir front olds : Directory} {newest : List UInt8}

theorem Layout.oldestBatch_eq_none (h : Layout m dir [] olds newest) : m.oldestBatch = none := by
  have hfront := h.front_eq
  rcases hold : m.oldestBatch with _ | f
  · rfl
  · rw [hold] at hfront
    cases hfront

/-- The events lists are made of: those of the oldest file if it is open, or of the first one that
has any. -/
def firstEvents (m : MultiFileEventBatch) (dir : Directory) : List (List UInt8) :=
  (if m.oldestBatch.isSome then dir.head? else dir.find? hasLines).elim [] fun f => lines 10 f.2

/-- They are of a file in front of the newest one. -/
def hasLater (m : MultiFileEventBatch) (dir : Directory) : Bool :=
  m.oldestBatch.isSome || dir.dropLast.any hasLines

def listing : Listing (MultiFileEventBatch × Directory) where
  listed s := s.1.firstEvents s.2
  later s := s.1.hasLater s.2
  lineLimit maxSize := min maxSize (1024 * 1024)
  listsNothing := true

theorem first_listEvents (m : MultiFileEventBatch) (dir : Directory) (maxCount maxSize : Nat) :
    (m.listEvents dir maxCount maxSize).2.firstEvents dir = m.firstEvents dir := by
  rw [firstEvents, firstEvents, listEvents]
  rcases m.oldestBatch with _ | ⟨id, ev⟩
  · rfl
  · rfl

section First
variable (h : Layout m dir front olds newest)
include h

theorem Layout.first_of_some {id : Nat} {ev : FileEventBatch}
    (hsome : m.oldestBatch = some (id, ev)) :
    m.firstEvents dir = lines 10 (dir.read id) ∧ m.hasLater dir = true := by
  have hhead : dir.head? = some (id, dir.read id) := congrArg head? (h.dir_oldest hsome)
  simp [firstEvents, hasLater, hsome, hhead]

theorem Layout.first_of_none (hnone : m.oldestBatch = none) :
    m.firstEvents dir = (olds.find? hasLines).elim (lines 10 newest) (fun f => lines 10 f.2) ∧
      m.hasLater dir = (olds.find? hasLines).isSome := by
  have hdir := h.dir_eq
  rw [h.front_eq_nil hnone, nil_append] at hdir
  rw [firstEvents, hasLater, hnone, hdir, dropLast_concat, find?_append]
  constructor
  · cases olds.find? hasLines with
    | some f => rfl
    | none =>
      by_cases hempty : lines 10 newest = []
      · simp [hasLines, hempty]
      · simp [hasLines, hempty]
  · rw [Option.isSome_none, Bool.false_or, Bool.eq_iff_iff, any_eq_true, find?_isSome]

theorem Layout.first_checkOldestBatch :
    (m.checkOldestBatch dir).1.firstEvents (m.checkOldestBatch dir).2 = m.firstEvents dir ∧
      (m.checkOldestBatch dir).1.hasLater (m.checkOldestBatch dir).2 = m.hasLater dir := by
  rcases hold : m.oldestBatch with _ | f
  · obtain ⟨front', olds', h', _, hempty, _, hfound⟩ := h.checkOldestBatch
    obtain ⟨hfirst, hlater⟩ := h.first_of_none hold
    rw [hfirst, hlater, hfound hold]
    rcases hold' : (m.checkOldestBatch dir).1.oldestBatch with _ | ⟨id, ev⟩
    · have holds : olds' = [] := by simpa [hempty hold'] using h'.olds_eq
      obtain ⟨hfirst', hlater'⟩ := h'.first_of_none hold'
      rw [hfirst', hlater', holds, h'.front_eq_nil hold']
      exact ⟨rfl, rfl⟩
    · obtain ⟨hfirst', hlater'⟩ := h'.first_of_some hold'
      rw [hfirst', hlater', (h'.oldest hold').1]
      exact ⟨rfl, rfl⟩
  · rw [checkOldestBatch_some hold]
    exact ⟨rfl, rfl⟩

theorem Layout.first_ne_nil (hfront : ∀ f ∈ front, lines 10 f.2 ≠ []) (hne : dir.events ≠ []) :
    m.firstEvents dir ≠ [] := by
  rcases hold : m.oldestBatch with _ | ⟨id, ev⟩
  · rw [(h.first_of_none hold).1]
    rw [h.events_eq, h.front_eq_nil hold, nil_append] at hne
    cases hfound : olds.find? hasLines with
    | some f => simpa [hasLines] using find?_some hfound
    | none =>
      have hempty : olds.flatMap (fun f => lines 10 f.2) = [] :=
        flatMap_eq_nil_iff.mpr fun f hf => by
          simpa [hasLines] using find?_eq_none.mp hfound f hf
      simpa [hempty] using hne
  · rw [(h.first_of_some hold).1]
    exact hfront (id, dir.read id) (by rw [(h.oldest hold).1]; exact mem_singleton_self _)

/-- The file that is listed, once the oldest batch has been checked. -/
theorem Layout.listed_file (hempty : m.oldestBatch = none → m.oldBatches = []) :
    ∃ (ev : FileEventBatch) (content : List UInt8) (rest : List (List UInt8)),
      ev.Represents content (m.firstEvents dir) ∧ dir.events = m.firstEvents dir ++ rest ∧
      (∀ maxCount maxSize, (m.listEvents dir maxCount maxSize).1 =
        (ev.getEventsForUpload content maxCount maxSize).1.map (⟨·, m.hasLater dir⟩)) ∧
      (m.hasLater dir = false → rest = []) ∧
      (m.hasLater dir = true → lines 10 newest <:+ rest) := by
  rcases hold : m.oldestBatch with _ | ⟨id, ev⟩
  · have holds : olds = [] := by simpa [hempty hold] using h.olds_eq
    obtain ⟨hfirst, hlater⟩ := h.first_of_none hold
    rw [holds] at hfirst hlater
    have hevents : dir.events = lines 10 newest := by
      rw [h.events_eq, h.front_eq_nil hold, holds]
      rfl
    refine ⟨m.newestBatch, newest, [], hfirst ▸ h.newest_eq, ?_, fun _ _ => ?_, fun _ => rfl, ?_⟩
    · rw [hevents, hfirst, append_nil]
      rfl
    · rw [h.listEvents_newest hold, hlater]
      rfl
    · rw [hlater]
      exact nofun
  · obtain ⟨hfront, _, hev⟩ := h.oldest hold
    obtain ⟨hfirst, hlater⟩ := h.first_of_some hold
    refine ⟨ev, dir.read id, olds.flatMap (fun f => lines 10 f.2) ++ lines 10 newest, hfirst ▸ hev,
      ?_, fun _ _ => ?_, ?_, fun _ => suffix_append _ _⟩
    · rw [h.events_eq, hfront, singleton_append, flatMap_cons, append_assoc, hfirst]
    · rw [listEvents_oldest hold, hlater]
    · rw [hlater]
      exact nofun

theorem Layout.getEventsForUpload_file :
    ∃ (ev : FileEventBatch) (content : List UInt8) (rest : List (List UInt8)),
      ev.Represents content (m.firstEvents dir) ∧ dir.events = m.firstEvents dir ++ rest ∧
      (∀ maxCount maxSize, (m.getEventsForUpload dir maxCount maxSize).1 =
        (ev.getEventsForUpload content maxCount maxSize).1.map (⟨·, m.hasLater dir⟩)) ∧
      (m.hasLater dir = false → rest = []) ∧
      (m.hasLater dir = true → lines 10 newest <:+ rest) := by
  obtain ⟨front', olds', h', hevents, hempty, _⟩ := h.checkOldestBatch
  obtain ⟨hfirst, hlater⟩ := h.first_checkOldestBatch
  obtain hfile := h'.listed_file hempty
  rwa [hfirst, hlater, hevents] at hfile

end First

theorem eventBatch_listsFrom :
    eventBatch.ListsFrom (fun s ls => s.1.Represents s.2 ls) (fun l s => Listed l s.1 s.2)
      listing where
  front := by
    rintro ⟨m, dir⟩ _ ⟨⟨front, olds, newest, h⟩, rfl⟩
    obtain ⟨_, _, rest, _, hsplit, _⟩ := h.getEventsForUpload_file
    exact ⟨rest, hsplit.symm⟩
  last := by
    rintro ⟨m, dir⟩ _ ⟨⟨front, olds, newest, h⟩, rfl⟩ hlater
    obtain ⟨_, _, rest, _, hsplit, _, hrest, _⟩ := h.getEventsForUpload_file
    rw [hrest hlater, append_nil] at hsplit
    exact hsplit.symm
  hasEvents := by
    rintro ⟨m, dir⟩ _ ⟨⟨front, olds, newest, h⟩, rfl⟩ hne
    by_contra hno
    have hnewest := h.newest_eq.hasEvents_iff
    simp only [eventBatch, MultiFileEventBatch.hasEvents, Bool.or_eq_true, not_or,
      Bool.not_eq_true', Bool.not_eq_false, List.isEmpty_iff, Option.isSome_iff_ne_none, not_not,
      hnewest] at hno
    obtain ⟨⟨hbatches, hold⟩, hempty⟩ := hno
    have holds : olds = [] := map_eq_nil_iff.mp (h.olds_eq.trans hbatches)
    rw [h.events_eq, h.front_eq_nil hold, holds, hempty] at hne
    exact hne rfl
  list := by
    rintro ⟨m, dir⟩ _ maxCount maxSize ⟨⟨front, olds, newest, h⟩, rfl⟩
    obtain ⟨ev, content, _, hev, _, hlist, _⟩ := h.getEventsForUpload_file
    have hcond : (listing.listed (m, dir) = [] ∨ maxCount = 0 ∨
        maxSize = 0 ∧ listing.listsNothing = false) ↔ m.firstEvents dir = [] ∨ maxCount = 0 := by
      simp [listing]
    change (m.getEventsForUpload dir maxCount maxSize).1.map eventBatch.plain.view = _
    rw [hlist, hev.getEventsForUpload_eq]
    by_cases hstop : m.firstEvents dir = [] ∨ maxCount = 0
    · rw [if_pos hstop, if_pos (hcond.mpr hstop)]
      rfl
    · rw [if_neg hstop, if_neg (hcond.not.mpr hstop)]
      rfl
  listed_getEventsForUpload := by
    rintro ⟨m, dir⟩ _ maxCount maxSize ⟨⟨front, olds, newest, h⟩, rfl⟩
    refine Eq.trans ?_ h.first_checkOldestBatch.1
    exact first_listEvents _ _ maxCount maxSize
  listed_onEventsUploaded := by
    rintro ⟨m, dir⟩ _ l rest ⟨⟨front, olds, newest, h⟩, rfl⟩ hl ⟨_, hrest⟩ hne
    obtain ⟨_, front', newest', _, _, hlayout, hfront, _⟩ := h.onEventsUploaded hl []
    exact hlayout.first_ne_nil hfront (hrest.trans_ne hne)
  lineLimit_le _ := min_le_left _ _

/-- The files hold the lines `ls`, and none but the newest is without events. -/
def Tidy (s : MultiFileEventBatch × Directory) (ls : List (List UInt8)) : Prop :=
  (∃ front olds newest, Layout s.1 s.2 front olds newest ∧
    ∀ f ∈ front ++ olds, Lines.lines 10 f.2 ≠ []) ∧ s.2.events = ls

section
variable {s : MultiFileEventBatch × Directory} {ls : List (List UInt8)} (h : Tidy s ls)
include h

theorem Tidy.represents : s.1.Represents s.2 ls := by
  obtain ⟨⟨front, olds, newest, hlayout, _⟩, hls⟩ := h
  exact ⟨⟨front, olds, newest, hlayout⟩, hls⟩

theorem Tidy.setFileLimits (maxEvents maxSize : Nat) :
    Tidy (s.1.setFileLimits maxEvents maxSize, s.2) ls := by
  obtain ⟨⟨front, olds, newest, h, htidy⟩, hls⟩ := h
  refine ⟨⟨front, olds, newest, ⟨h.dir_eq, h.ordered, ?_, h.olds_eq, h.whole,
    h.newest_eq.setLimit maxEvents maxSize, h.newest_open⟩, htidy⟩, hls⟩
  exact h.front_eq.setLimit maxEvents maxSize

theorem Tidy.getEventsForUpload (maxCount maxSize : Nat) :
    Tidy (s.1.getEventsForUpload s.2 maxCount maxSize).2 ls := by
  obtain ⟨⟨front, olds, newest, h, htidy⟩, hls⟩ := h
  obtain ⟨front', olds', h', hevents, _, hsub⟩ := h.checkOldestBatch
  refine ⟨⟨front', olds', newest, h'.listEvents maxCount maxSize, ?_⟩, hevents.trans hls⟩
  exact fun f hf => htidy f (hsub.1 hf)

theorem Tidy.onEventsUploaded {l : EventList} (hl : Listed l s.1 s.2)
    (rounds : List (Nat × List Nat)) :
    ∃ done rest, ls = done ++ rest ∧ l.wrapped.data = done.flatten ∧
      l.wrapped.events = done.length ∧
      Tidy (s.1.onEventsUploaded s.2 l (rounds.map FileEventBatch.ShiftRound.clean)) rest := by
  obtain ⟨⟨front, olds, newest, h, htidy⟩, rfl⟩ := h
  obtain ⟨done, front', newest', hdata, hcount, hlayout, htidy', hevents⟩ :=
    h.onEventsUploaded hl rounds
  refine ⟨done, _, hevents, hdata, hcount, ⟨front', olds, newest', hlayout, fun f hf => ?_⟩, rfl⟩
  rcases mem_append.mp hf with hf | hf
  · exact htidy' f hf
  · exact htidy f (mem_append_right _ hf)

theorem Tidy.first_ne_nil (hne : ls ≠ []) : s.1.firstEvents s.2 ≠ [] := by
  obtain ⟨⟨front, olds, newest, h, htidy⟩, rfl⟩ := h
  exact h.first_ne_nil (fun f hf => htidy f (mem_append_left _ hf)) hne

theorem Tidy.exists_list (hne : ls ≠ []) {maxCount : Nat} (hcount : 0 < maxCount) (maxSize : Nat) :
    ∃ l, (s.1.getEventsForUpload s.2 maxCount maxSize).1 = some l := by
  refine Option.ne_none_iff_exists'.mp fun hnone => ?_
  rcases (eventBatch_listsFrom.eq_none h.represents maxCount maxSize).mp hnone with
    hnil | hzero | ⟨_, hnothing⟩
  · exact h.first_ne_nil hne hnil
  · omega
  · cases hnothing

end

theorem eventBatch_isStore_tidy : eventBatch.plain.IsStore Tidy (fun l s => Listed l s.1 s.2) where
  isLine h := h.represents.isLine
  getEventsForUpload maxCount maxSize h := h.getEventsForUpload maxCount maxSize
  out _ _ h hl _ := h.represents.listed hl
  onEventsUploaded := by
    intro s ls l h hl
    obtain ⟨done, rest, hls, hdata, hcount, hrest⟩ := h.onEventsUploaded hl []
    exact ⟨done, rest, .of_eq hls, hdata, hcount, hrest, .inl hls⟩

theorem eventBatch_drains :
    eventBatch.plain.Drains Tidy (fun maxSize => min maxSize (1024 * 1024)) where
  hasEvents := by
    rintro ⟨m, dir⟩ _ ⟨⟨front, olds, newest, h, htidy⟩, rfl⟩
    change Layout m dir front olds newest at h
    have hevents := h.events_eq
    have hnewest : m.newestBatch.hasEvents = true ↔ lines 10 newest ≠ [] :=
      h.newest_eq.hasEvents_iff
    change m.hasEvents = true ↔ dir.events ≠ []
    rcases eq_nil_or_concat' (front ++ olds) with hnone | ⟨L, f, hsome⟩
    · obtain ⟨hfront, holds⟩ := append_eq_nil_iff.mp hnone
      rw [hfront] at h
      have hold := h.oldestBatch_eq_none
      have hbatches : m.oldBatches = [] := by rw [← h.olds_eq, holds, map_nil]
      rw [hevents, hnone, flatMap_nil, nil_append, ← hnewest]
      simp [MultiFileEventBatch.hasEvents, hold, hbatches]
    · -- a file before the newest has events
      have hf : f ∈ front ++ olds := by rw [hsome]; simp
      have hne : dir.events ≠ [] := by
        rw [hevents]
        refine append_ne_nil_of_left_ne_nil (fun hnil => ?_) _
        exact htidy f hf (flatMap_eq_nil_iff.mp hnil f hf)
      refine ⟨fun _ => hne, fun _ => ?_⟩
      rcases mem_append.mp hf with hf | hf
      · have hold : m.oldestBatch ≠ none := fun hnone => by
          rw [h.front_eq_nil hnone] at hf
          exact absurd hf (by simp)
        simp [MultiFileEventBatch.hasEvents, Option.isSome_iff_ne_none.mpr hold]
      · have hbatches : m.oldBatches ≠ [] := by
          rw [← h.olds_eq]
          exact fun hnil => absurd (map_eq_nil_iff.mp hnil ▸ hf) (by simp)
        simp [MultiFileEventBatch.hasEvents, hbatches]
  lists := by
    rintro s ls maxCount maxSize h hne hcount _
    obtain ⟨l, hl⟩ := h.exists_list hne hcount maxSize
    exact ⟨l, hl, rfl⟩

end MultiFileEventBatch

/-! ## A buffer in front of a batch -/

namespace BufferedEventBatch

section Interface
variable {σ ℓ : Type} (B : EventBatch σ ℓ)

def hasEvents (b : BufferedEventBatch σ) : Bool := b.mem.hasEvents || B.hasEvents b.wrapped

/-- `getEventCount` of a list that does not wrap a null pointer. -/
def getEventCount : BufferedEventList ℓ → Nat
  | .wrapped l _ => B.getEventCount l
  | .memory l => (l.map VectorBatchedEventList.events).getD 0
  | .merged l mem => B.getEventCount l + mem.events

/-- `hasMoreEvents` of a list that does not wrap a null pointer. -/
def hasMoreEvents : BufferedEventList ℓ → Bool
  | .wrapped l hasMemoryEvents => hasMemoryEvents || B.hasMoreEvents l
  | .memory l => (l.map VectorBatchedEventList.moreEvents).getD false
  | .merged l mem => B.hasMoreEvents l || mem.moreEvents

/-- `BufferedEventBatch` as an `EventBatch`; `getEventsForUpload` never returns
null. -/
def uploadBatch : UploadBatch (BufferedEventBatch σ) (BufferedEventList ℓ) where
  addEvent e b := b.addEvent B e
  getEventsForUpload maxCount maxSize b :=
    let (l, b) := b.getEventsForUpload B maxCount maxSize
    (some l, b)
  onEventsUploaded l b := (b.onEventsUploaded B l).getD b
  hasEvents b := b.hasEvents B
  getData l := (getData B l).getD []
  getEventCount l := getEventCount B l
  hasMoreEvents l := hasMoreEvents B l
  valid l := (getData B l).isSome

variable (HoldsW : σ → List (List UInt8) → Prop) (OutW : ℓ → σ → Prop)

/-- The events of the wrapped batch and those in memory. -/
def Holds (b : BufferedEventBatch σ) (ls : List (List UInt8)) : Prop :=
  ∃ wrapped, HoldsW b.wrapped wrapped ∧ ls = wrapped ++ b.mem.lines

/-- Both parts of the list can be acknowledged. -/
def Out (l : BufferedEventList ℓ) (b : BufferedEventBatch σ) : Prop :=
  match l with
  | .wrapped l _ => OutW l b.wrapped
  | .memory l => ∃ mem, l = some mem ∧ MemoryEventBatch.Out mem b.mem
  | .merged l mem => OutW l b.wrapped ∧ MemoryEventBatch.Out mem b.mem

end Interface

section Instances
variable {σ ℓ : Type} {B : EventBatch σ ℓ} {HoldsW : σ → List (List UInt8) → Prop}
  {OutW : ℓ → σ → Prop} {lineLimit : Nat → Nat}

section
variable (hB : B.plain.IsStore HoldsW OutW) {b : BufferedEventBatch σ} {ls : List (List UInt8)}
  (h : Holds HoldsW b ls)
include hB h

theorem Holds.getEventsForUpload (maxCount maxSize : Nat) :
    Holds HoldsW (b.getEventsForUpload B maxCount maxSize).2 ls := by
  obtain ⟨wrapped, hw, rfl⟩ := h
  have hafter := hB.getEventsForUpload maxCount maxSize hw
  rcases getEventsForUpload_cases B b maxCount maxSize with
    ⟨l, w, hget, hlist | ⟨mem, _, _, hlist⟩⟩ | ⟨w, ⟨_, rfl⟩ | hget, hlist⟩
  · rw [hlist]
    exact ⟨wrapped, by simpa [EventBatch.plain, hget] using hafter, rfl⟩
  · rw [hlist]
    exact ⟨wrapped, by simpa [EventBatch.plain, hget] using hafter, rfl⟩
  · rw [hlist]
    exact ⟨wrapped, hw, rfl⟩
  · rw [hlist]
    exact ⟨wrapped, by simpa [EventBatch.plain, hget] using hafter, rfl⟩

theorem Holds.out (maxCount maxSize : Nat)
    (hvalid : (getData B (b.getEventsForUpload B maxCount maxSize).1).isSome = true) :
    Out OutW (b.getEventsForUpload B maxCount maxSize).1
      (b.getEventsForUpload B maxCount maxSize).2 := by
  obtain ⟨wrapped, hw, rfl⟩ := h
  have hout := fun l => hB.out (l := l) maxCount maxSize hw
  rcases getEventsForUpload_cases B b maxCount maxSize with
    ⟨l, w, hget, hlist | ⟨mem, _, hmem, hlist⟩⟩ | ⟨w, _, hlist⟩
  · have hl : OutW l w := by simpa [EventBatch.plain, hget] using hout l
    rw [hlist]
    exact hl
  · have hl : OutW l w := by simpa [EventBatch.plain, hget] using hout l
    rw [hlist]
    exact ⟨hl, getEventsForUpload_spec hmem⟩
  · rw [hlist] at hvalid ⊢
    simp only [getData, Option.isSome_map] at hvalid
    obtain ⟨mem, hmem⟩ := Option.isSome_iff_exists.mp hvalid
    exact ⟨mem, hmem, getEventsForUpload_spec hmem⟩

theorem Holds.onEventsUploaded {l : BufferedEventList ℓ} (hl : Out OutW l b) :
    ∃ done rest, ls.Perm (done ++ rest) ∧ (uploadBatch B).getData l = done.flatten ∧
      (uploadBatch B).getEventCount l = done.length ∧
      Holds HoldsW ((uploadBatch B).onEventsUploaded l b) rest := by
  obtain ⟨wrapped, hw, rfl⟩ := h
  cases l with
  | wrapped l hasMemoryEvents =>
    obtain ⟨done, rest, hls, hdata, hcount, hrest, _⟩ := hB.onEventsUploaded hw hl
    refine ⟨done, rest ++ b.mem.lines, ?_, hdata, hcount, ⟨rest, hrest, rfl⟩⟩
    rw [← append_assoc]
    exact hls.append_right _
  | memory l =>
    obtain ⟨mem, rfl, done, hdone, hdata, hcount⟩ := hl
    have hmem := lines_onEventsUploaded hdone hcount
    refine ⟨done, wrapped ++ (b.mem.onEventsUploaded mem).lines, ?_, hdata, hcount,
      ⟨wrapped, hw, rfl⟩⟩
    rw [hmem]
    exact perm_append_comm_assoc _ _ _
  | merged l mem =>
    obtain ⟨hl, done', hdone, hdata', hcount'⟩ := hl
    obtain ⟨done, rest, hls, hdata, hcount, hrest, _⟩ := hB.onEventsUploaded hw hl
    have hmem := lines_onEventsUploaded hdone hcount'
    refine ⟨done ++ done', rest ++ (b.mem.onEventsUploaded mem).lines, ?_, ?_, ?_,
      ⟨rest, hrest, rfl⟩⟩
    · rw [hmem, append_assoc]
      refine (hls.append_right _).trans ?_
      rw [append_assoc]
      exact (perm_append_comm_assoc _ _ _).append_left done
    · rw [flatten_append, ← hdata', ← hdata]
      rfl
    · rw [length_append, ← hcount', ← hcount]
      rfl

end

theorem uploadBatch_isStore (hB : B.plain.IsStore HoldsW OutW) :
    (uploadBatch B).IsStore (Holds HoldsW) (Out OutW) where
  isLine := by
    rintro b _ ⟨wrapped, hw, rfl⟩
    exact forall_mem_append.mpr ⟨hB.isLine hw, b.mem.lines_isLine⟩
  getEventsForUpload maxCount maxSize h := h.getEventsForUpload hB maxCount maxSize
  out := by
    rintro b _ l maxCount maxSize h hl hvalid
    simp only [uploadBatch, Option.some.injEq] at hl hvalid ⊢
    subst hl
    exact h.out hB maxCount maxSize hvalid
  onEventsUploaded := by
    intro b ls l h hl
    obtain ⟨done, rest, hls, hdata, hcount, hrest⟩ := h.onEventsUploaded hB hl
    refine ⟨done, rest, hls, hdata, hcount, hrest, .inr fun maxCount maxSize b' => ?_⟩
    simp [uploadBatch]

/-- The first event that is listed fits: one of the wrapped batch, or one in memory if there is
none. -/
def Fits (L : Listing σ) (b : BufferedEventBatch σ) (maxSize : Nat) : Prop :=
  match L.listed b.wrapped with
  | d :: _ => d.length ≤ L.lineLimit maxSize
  | [] => ∀ d ∈ b.mem.lines.head?, d.length ≤ maxSize

section Lists
variable {L : Listing σ} (hL : B.ListsFrom HoldsW OutW L) {b : BufferedEventBatch σ}
  {ls : List (List UInt8)} (hw : HoldsW b.wrapped ls) {maxCount maxSize : Nat}
include hL hw

/-- Memory is listed alone only if the wrapped batch has nothing to list. -/
theorem listed_eq_nil (hcount : 0 < maxCount) (hsize : 0 < maxSize) {w : σ}
    (hnone : B.hasEvents b.wrapped = false ∧ w = b.wrapped ∨
      B.getEventsForUpload maxCount maxSize b.wrapped = (none, w)) : L.listed b.wrapped = [] := by
  rcases hnone with ⟨hno, _⟩ | hget
  · have hnil : ls = [] := by_contra fun hne => absurd (hno.symm.trans (hL.hasEvents hw hne)) nofun
    exact prefix_nil.mp (hnil ▸ hL.front hw)
  · rcases (hL.eq_none hw maxCount maxSize).mp (congrArg Prod.fst hget) with h | h | ⟨h, _⟩
    · exact h
    · omega
    · omega

theorem count_wrapped (hcount : 0 < maxCount) {l : ℓ} {w : σ}
    (hget : B.getEventsForUpload maxCount maxSize b.wrapped = (some l, w)) :
    (0 < B.getEventCount l ↔ Fits L b maxSize) ∧
      (B.hasMoreEvents l = false → 0 < B.getEventCount l) := by
  have hl : (B.getEventsForUpload maxCount maxSize b.wrapped).1 = some l := by rw [hget]
  have hne : L.listed b.wrapped ≠ [] := fun hnil =>
    absurd (hl.symm.trans ((hL.eq_none hw _ _).mpr (.inl hnil))) nofun
  have hview := hL.view_eq hw hl
  obtain ⟨d, rest, hlisted⟩ := exists_cons_of_ne_nil hne
  rw [hlisted] at hview
  have hevents : B.getEventCount l = fitting maxCount (L.lineLimit maxSize) (d :: rest) :=
    congrArg VectorBatchedEventList.events hview
  have hmore : B.hasMoreEvents l = (L.later b.wrapped ||
      decide (fitting maxCount (L.lineLimit maxSize) (d :: rest) < (d :: rest).length)) :=
    congrArg VectorBatchedEventList.moreEvents hview
  constructor
  · rw [hevents, Fits, hlisted, fitting_pos, and_iff_right hcount]
  · intro hall
    rw [hmore, Bool.or_eq_false_iff, decide_eq_false_iff_not, ← hevents, length_cons] at hall
    omega

end Lists

theorem uploadBatch_lists {L : Listing σ} (hL : B.ListsFrom HoldsW OutW L) :
    (uploadBatch B).Lists (Holds HoldsW) L.lineLimit (Fits L) where
  fits := by
    rintro b _ maxSize ⟨wrapped, hw, rfl⟩ hfits
    have hfront := hL.front hw
    rw [Fits]
    split
    · next d rest hlisted =>
      exact hfits d (mem_append_left _ (hfront.subset (by rw [hlisted]; exact mem_cons_self)))
    · intro d hd
      exact (hfits d (mem_append_right _ (mem_of_head? hd))).trans (hL.lineLimit_le maxSize)
  positive := by
    rintro b _ l maxCount maxSize ⟨wrapped, hw, rfl⟩ hcount hsize hl hvalid
    simp only [uploadBatch, Option.some.injEq] at hl hvalid ⊢
    subst hl
    rcases getEventsForUpload_cases B b maxCount maxSize with
      ⟨l, w, hget, hlist | ⟨mem, hall, _, hlist⟩⟩ | ⟨w, hnone, hlist⟩
    · rw [hlist]
      exact (count_wrapped hL hw hcount hget).1
    · obtain ⟨hpos, hmerged⟩ := count_wrapped hL hw hcount hget
      rw [hlist]
      exact iff_of_true (Nat.add_pos_left (hmerged hall) _) (hpos.mp (hmerged hall))
    · rw [hlist] at hvalid ⊢
      simp only [getData, Option.isSome_map] at hvalid
      obtain ⟨mem, hmem⟩ := Option.isSome_iff_exists.mp hvalid
      rw [Fits, listed_eq_nil hL hw hcount hsize hnone]
      simp only [getEventCount, hmem, Option.map_some, Option.getD_some]
      exact (MemoryEventBatch.eventBatch_listsFrom.lists eventBatch_isQueue.isStore).positive rfl
        hcount hsize hmem rfl
  unfit := by
    rintro b _ maxCount maxSize ⟨wrapped, hw, rfl⟩ hcount hsize hlong
    refine ⟨(b.getEventsForUpload B maxCount maxSize).1, rfl, ?_⟩
    rcases getEventsForUpload_cases B b maxCount maxSize with
      ⟨l, w, _, hlist | ⟨mem, _, _, hlist⟩⟩ | ⟨w, hnone, hlist⟩
    · rw [hlist]
      rfl
    · rw [hlist]
      rfl
    · rw [Fits, listed_eq_nil hL hw hcount hsize hnone] at hlong
      obtain ⟨mem, hmem, _⟩ :=
        (MemoryEventBatch.eventBatch_listsFrom.lists eventBatch_isQueue.isStore).unfit rfl
          hcount hsize hlong
      have hmem' : b.mem.getEventsForUpload maxCount maxSize = some mem := hmem
      rw [hlist, hmem']
      rfl
  refuses := by
    rintro b _ maxCount maxSize _ _ hnone
    simp [uploadBatch] at hnone

theorem uploadBatch_drains (hD : B.plain.Drains HoldsW lineLimit)
    (hlimit : ∀ maxSize, lineLimit maxSize ≤ maxSize) :
    (uploadBatch B).Drains (Holds HoldsW) lineLimit where
  hasEvents := by
    rintro b _ ⟨wrapped, hw, rfl⟩
    have hwrapped : B.hasEvents b.wrapped = true ↔ wrapped ≠ [] := hD.hasEvents hw
    simp only [uploadBatch, hasEvents, Bool.or_eq_true, b.mem.hasEvents_iff, hwrapped, ne_eq,
      append_eq_nil_iff, not_and_or]
    exact Or.comm
  lists := by
    rintro b _ maxCount maxSize ⟨wrapped, hw, rfl⟩ hne hcount hfits
    refine ⟨(b.getEventsForUpload B maxCount maxSize).1, rfl, ?_⟩
    rcases getEventsForUpload_cases B b maxCount maxSize with
      ⟨l, w, _, hlist | ⟨mem, _, _, hlist⟩⟩ | ⟨w, hempty, hlist⟩
    · rw [hlist]
      rfl
    · rw [hlist]
      rfl
    · -- the wrapped batch has no events, so the memory has
      have hnil : wrapped = [] := by
        by_contra hsome
        rcases hempty with ⟨hno, _⟩ | hget
        · exact absurd ((hD.hasEvents hw).mpr hsome) (by simp [EventBatch.plain, hno])
        · obtain ⟨l, hl, _⟩ := hD.lists hw hsome hcount
            fun d hd => hfits d (mem_append_left _ hd)
          simp [EventBatch.plain, hget] at hl
      rw [hnil, nil_append] at hne hfits
      have hfits' : ∀ d ∈ b.mem.lines, d.length ≤ maxSize :=
        fun d hd => le_trans (hfits d hd) (hlimit maxSize)
      obtain ⟨mem, hmem, _⟩ := MemoryEventBatch.eventBatch_drains.lists rfl hne hcount hfits'
      have hmem' : b.mem.getEventsForUpload maxCount maxSize = some mem := hmem
      rw [hlist, hmem']
      rfl

end Instances

end BufferedEventBatch

/-! ## All of them -/

/-- The batches that keep events themselves. -/
inductive Store where
  | memory
  | file
  | multiFile

namespace Store

def State : Store → Type
  | memory => MemoryEventBatch
  | file => FileEventBatch × List UInt8
  | multiFile => MultiFileEventBatch × Directory

def EventList : Store → Type
  | memory => VectorBatchedEventList
  | file => VectorBatchedEventList
  | multiFile => MultiFileEventBatch.EventList

def eventBatch : (k : Store) → EventBatch k.State k.EventList
  | memory => MemoryEventBatch.eventBatch
  | file => FileEventBatch.eventBatch
  | multiFile => MultiFileEventBatch.eventBatch

def Holds : (k : Store) → k.State → List (List UInt8) → Prop
  | memory => fun m ls => m.lines = ls
  | file => FileEventBatch.Holds
  | multiFile => fun s ls => s.1.Represents s.2 ls

def Out : (k : Store) → k.EventList → k.State → Prop
  | memory => MemoryEventBatch.Out
  | file => FileEventBatch.Out
  | multiFile => fun l s => MultiFileEventBatch.Listed l s.1 s.2

/-- Of the files a mebibyte is read at most. -/
def listing : (k : Store) → Listing k.State
  | memory => MemoryEventBatch.listing
  | file => FileEventBatch.listing
  | multiFile => MultiFileEventBatch.listing

theorem isStore (k : Store) : k.eventBatch.plain.IsStore k.Holds k.Out := by
  cases k with
  | memory => exact eventBatch_isQueue.isStore
  | file => exact FileEventBatch.eventBatch_isStore
  | multiFile => exact MultiFileEventBatch.eventBatch_isQueue.isStore

theorem listsFrom (k : Store) : k.eventBatch.ListsFrom k.Holds k.Out k.listing := by
  cases k with
  | memory => exact MemoryEventBatch.eventBatch_listsFrom
  | file => exact FileEventBatch.eventBatch_listsFrom
  | multiFile => exact MultiFileEventBatch.eventBatch_listsFrom

theorem holds_unique (k : Store) {s : k.State} {ls ls' : List (List UInt8)} (h : k.Holds s ls)
    (h' : k.Holds s ls') : ls = ls' := by
  cases k with
  | memory => exact h.symm.trans h'
  | file => exact (FileEventBatch.Holds.listed_eq h).symm.trans (FileEventBatch.Holds.listed_eq h')
  | multiFile => exact h.2.symm.trans h'.2

end Store

inductive BatchKind where
  | plain (store : Store)
  | buffered (wrapped : Store)

namespace BatchKind

def State : BatchKind → Type
  | plain k => k.State
  | buffered k => BufferedEventBatch k.State

def EventList : BatchKind → Type
  | plain k => k.EventList
  | buffered k => BufferedEventList k.EventList

def uploadBatch : (k : BatchKind) → UploadBatch k.State k.EventList
  | plain k => k.eventBatch.plain
  | buffered k => BufferedEventBatch.uploadBatch k.eventBatch

def Holds : (k : BatchKind) → k.State → List (List UInt8) → Prop
  | plain k => k.Holds
  | buffered k => BufferedEventBatch.Holds k.Holds

def Out : (k : BatchKind) → k.EventList → k.State → Prop
  | plain k => k.Out
  | buffered k => BufferedEventBatch.Out k.Out

/-- The first event that a list is made of fits into it. -/
def FirstFits : (k : BatchKind) → k.State → (maxSize : Nat) → Prop
  | plain k => fun s maxSize =>
    ∀ d ∈ (k.listing.listed s).head?, d.length ≤ k.listing.lineLimit maxSize
  | buffered k => Fits k.listing

/-- What a limit of no event drops: all events in front of one that is too long to be listed even
alone. A batch stuck at an empty file keeps them, and so does a buffer, which returns a null
pointer. -/
def dropped : (k : BatchKind) → k.State → List (List UInt8) → List (List UInt8)
  | plain k => fun s ls =>
    if k.listing.listed s = [] then []
    else ls.takeWhile fun d => d.length ≤ k.listing.lineLimit sizeMax
  | buffered _ => fun _ _ => []

theorem isStore (k : BatchKind) : k.uploadBatch.IsStore k.Holds k.Out := by
  cases k with
  | plain k => exact k.isStore
  | buffered k => exact uploadBatch_isStore k.isStore

theorem lists (k : BatchKind) : ∃ lineLimit, k.uploadBatch.Lists k.Holds lineLimit k.FirstFits := by
  cases k with
  | plain k => exact ⟨_, k.listsFrom.lists k.isStore⟩
  | buffered k => exact ⟨_, uploadBatch_lists k.listsFrom⟩

theorem holds_unique (k : BatchKind) {s : k.State} {ls ls' : List (List UInt8)} (h : k.Holds s ls)
    (h' : k.Holds s ls') : ls = ls' := by
  cases k with
  | plain k => exact k.holds_unique h h'
  | buffered k =>
    obtain ⟨wrapped, hw, rfl⟩ := h
    obtain ⟨wrapped', hw', rfl⟩ := h'
    rw [k.holds_unique hw hw']

/-- A buffer whose limit is no event keeps what it has. -/
theorem sendEvents_buffered (k : Store) {ε : Type} (u : EventUploader ε)
    {s : BufferedEventBatch k.State} {ls : List (List UInt8)}
    (h : BufferedEventBatch.Holds k.Holds s ls) (maxSize fuel : Nat) (e : ε) :
    BufferedEventBatch.Holds k.Holds
      (EventUploader.sendEvents (BufferedEventBatch.uploadBatch k.eventBatch) u 0 maxSize fuel s
        e).batch ls := by
  cases fuel with
  | zero => exact h
  | succ fuel =>
    have h' := (uploadBatch_isStore k.isStore).getEventsForUpload 0 maxSize h
    obtain ⟨wrapped, hw, _⟩ := h
    have hmem : s.mem.getEventsForUpload 0 maxSize = none := if_pos (.inl rfl)
    have hnone := (k.listsFrom.eq_none hw 0 maxSize).mpr (.inr (.inl rfl))
    -- the list is one around a null pointer
    obtain ⟨w, hlist⟩ : ∃ w, s.getEventsForUpload k.eventBatch 0 maxSize = (.memory none, w) := by
      rcases getEventsForUpload_cases k.eventBatch s 0 maxSize with
        ⟨l, w, hget, _⟩ | ⟨w, _, hlist⟩
      · rw [hget] at hnone
        cases hnone
      · exact ⟨_, hmem ▸ hlist⟩
    have hget : (BufferedEventBatch.uploadBatch k.eventBatch).getEventsForUpload 0 maxSize s =
        (some (.memory none), w) := by
      simp only [BufferedEventBatch.uploadBatch, hlist]
    rw [hget] at h'
    rw [EventUploader.sendEvents, EventUploader.acknowledge, EventUploader.postEvents, hget]
    exact h'

end BatchKind

/-- **Events are removed after delivery only**, in every batch and with every server, apart from
events at the front that are longer than `maxSize`; with a limit of no event exactly if all that it
drops are. -/
theorem sendEvents_delivers (k : BatchKind) {ε : Type} (e : ε) {s : k.State}
    {ls : List (List UInt8)} (h : k.Holds s ls) (maxCount maxSize : Nat) :
    (∀ (u : EventUploader ε) (fuel : Nat), u.RemovesDelivered k.Holds maxSize ls
        (EventUploader.sendEvents k.uploadBatch u maxCount maxSize fuel s e)) ↔
      (maxCount = 0 → ∀ d ∈ k.dropped s ls, maxSize < d.length) := by
  rcases Nat.eq_zero_or_pos maxCount with rfl | hcount
  · rw [imp_iff_right rfl]
    cases k with
    | plain k =>
      refine (EventUploader.sendEvents_zero_iff k.isStore k.listsFrom k.holds_unique maxSize h
        e).trans ?_
      by_cases hnil : k.listing.listed s = []
      · simp [BatchKind.dropped, hnil]
      · simp only [BatchKind.dropped, ne_eq, hnil, not_false_iff, true_imp_iff]
        rfl
    | buffered k =>
      refine iff_of_true (fun u fuel => ?_) nofun
      exact ⟨[], [], ls, nil_prefix, .refl _, BatchKind.sendEvents_buffered k u h maxSize fuel e,
        nofun, nofun⟩
  · obtain ⟨_, hlists⟩ := k.lists
    refine iff_of_true (fun u fuel => ?_) fun hzero => absurd hzero (Nat.ne_of_gt hcount)
    exact EventUploader.sendEvents_safe k.isStore hlists hcount u maxSize fuel h e

def oneEventFile : FileEventBatch × List UInt8 :=
  FileEventBatch.construct true BufferedEventBatch.firstEvent.line

theorem oneEventFile_holds :
    FileEventBatch.Holds oneEventFile [firstEvent.line] := by
  refine .inl ?_
  have h := FileEventBatch.construct_represents firstEvent.line
  have hlines : lines 10 firstEvent.line =
      [firstEvent.line] := by decide
  exact h

theorem sendEvents_delivers_one :
    EventUploader.ofOk.RemovesDelivered FileEventBatch.Holds 100 [firstEvent.line]
      (EventUploader.sendEvents FileEventBatch.eventBatch.plain .ofOk 1 100 1 oneEventFile ()) :=
  (sendEvents_delivers (.plain .file) () oneEventFile_holds 1 100).mpr nofun .ofOk 1

/-- **A limit of no event drops the queue**: no request is made, and the file is
empty. -/
theorem sendEvents_drops :
    let r := EventUploader.sendEvents FileEventBatch.eventBatch.plain .ofOk 0 100 3 oneEventFile ()
    r.outcome = .returned .success ∧ r.log = [] ∧ r.batch.2 = [] ∧
      ¬ EventUploader.ofOk.RemovesDelivered FileEventBatch.Holds 100 [firstEvent.line] r := by
  intro r
  have hlog : r.log = [] := rfl
  have hfile : r.batch.2 = [] := rfl
  refine ⟨rfl, hlog, hfile, ?_⟩
  rintro ⟨dropped, delivered, rest, hfront, hperm, hholds, hlong, hdelivered⟩
  have hnone : delivered = [] := eq_nil_iff_forall_not_mem.mpr fun d hd => by
    obtain ⟨x, hx, _⟩ := hdelivered d hd
    rw [hlog] at hx
    exact absurd hx (by simp)
  have hshort : dropped = [] := eq_nil_iff_forall_not_mem.mpr fun d hd => by
    have := hlong d hd
    rw [mem_singleton.mp (hfront.subset hd)] at this
    exact absurd this (by decide)
  rw [hnone, hshort, nil_append, nil_append] at hperm
  rw [← singleton_perm.mp hperm] at hholds
  rcases hholds with h | ⟨_, _, h⟩
  · have hcontent := h.content_eq
    exact absurd hcontent (by decide)
  · exact absurd h (by simp)

end Cll
