import McpeLauncher.UploadBatches

/-! # What a list for upload holds

A list is a front of the pending events, within the limits, and its flag says whether events remain
(`IsFront`). A buffer joins two such lists, and returns one around a null pointer where its memory
has none to give. -/
namespace Cll
open List FileEventBatch
open Lines (fitting fitting_le)

/-- The list holds the first of the pending events, within the limits, and says
whether others remain. -/
def IsFront (pending : List (List UInt8)) (maxCount maxSize : Nat) (l : VectorBatchedEventList) :
    Prop :=
  ∃ done rest, pending = done ++ rest ∧ l.data = done.flatten ∧ l.events = done.length ∧
    l.events ≤ maxCount ∧ l.data.length ≤ maxSize ∧ (l.moreEvents = true ↔ rest ≠ [])

section IsFront
variable {ls : List (List UInt8)} {maxCount maxSize : Nat}

/-- The events of such a list are determined by their number. -/
theorem isFront_iff {data : List UInt8} {n : Nat} {more : Bool} :
    IsFront ls maxCount maxSize ⟨data, n, more⟩ ↔ n ≤ ls.length ∧ data = (ls.take n).flatten ∧
      n ≤ maxCount ∧ data.length ≤ maxSize ∧ (more = true ↔ n < ls.length) := by
  constructor
  · rintro ⟨done, rest, rfl, hdata, hevents, hcount, hsize, hmore⟩
    change n = done.length at hevents
    subst hevents
    rw [take_left, length_append, Nat.lt_add_right_iff_pos, length_pos_iff]
    exact ⟨Nat.le_add_right _ _, hdata, hcount, hsize, hmore⟩
  · rintro ⟨hle, hdata, hcount, hsize, hmore⟩
    refine ⟨ls.take n, ls.drop n, (take_append_drop n ls).symm, hdata, ?_, hcount, hsize, ?_⟩
    · rw [length_take, min_eq_left hle]
    · rw [ne_eq, drop_eq_nil_iff, not_le]
      exact hmore

theorem isFront_fitting {limit : Nat} (hlimit : limit ≤ maxSize) :
    let n := fitting maxCount limit ls
    IsFront ls maxCount maxSize ⟨(ls.take n).flatten, n, decide (n < ls.length)⟩ := by
  obtain ⟨hlength, hcount, hsize⟩ := fitting_le maxCount limit ls
  exact isFront_iff.mpr ⟨hlength, rfl, hcount, hsize.trans hlimit, decide_eq_true_iff⟩

end IsFront

/-- In state `s` the lines `ls` are pending (`Holds s ls`); `listsNothing`: a list without events is
returned where no bytes are allowed. -/
structure EventBatch.ListsFront {σ ℓ : Type} (B : EventBatch σ ℓ)
    (Holds : σ → List (List UInt8) → Prop) (listsNothing : Bool) : Prop where
  hasEvents {s ls} : Holds s ls → (B.hasEvents s = true ↔ ls ≠ [])
  lists {s ls} (maxCount maxSize) : Holds s ls →
    ((B.getEventsForUpload maxCount maxSize s).1.isSome = true ↔
      ls ≠ [] ∧ maxCount ≠ 0 ∧ (maxSize = 0 → listsNothing = true))
  front {s ls l maxCount maxSize} : Holds s ls →
    (B.getEventsForUpload maxCount maxSize s).1 = some l →
      IsFront ls maxCount maxSize (B.plain.view l)

section ListsFrom
variable {σ ℓ : Type} {B : EventBatch σ ℓ} {Holds : σ → List (List UInt8) → Prop}
  {Out : ℓ → σ → Prop} {L : Listing σ} (hL : B.ListsFrom Holds Out L) {s : σ}
  {ls : List (List UInt8)} (h : Holds s ls) {maxCount maxSize : Nat} {l : ℓ}
  (hl : (B.getEventsForUpload maxCount maxSize s).1 = some l)
include hL h hl

theorem EventBatch.ListsFrom.hasMoreEvents_eq : B.hasMoreEvents l = (L.later s ||
    decide (fitting maxCount (L.lineLimit maxSize) (L.listed s) < (L.listed s).length)) :=
  congrArg VectorBatchedEventList.moreEvents (hL.view_eq h hl)

/-- With further events behind those of the batch, only the flag can be wrong. -/
theorem EventBatch.ListsFrom.isFront_iff (ms : List (List UInt8)) (more : Bool) :
    IsFront (ls ++ ms) maxCount maxSize ⟨B.getData l, B.getEventCount l, more⟩ ↔
      (more = true ↔
        fitting maxCount (L.lineLimit maxSize) (L.listed s) < (ls ++ ms).length) := by
  have hview := hL.view_eq h hl
  have hdata : B.getData l = _ := congrArg VectorBatchedEventList.data hview
  have hevents : B.getEventCount l = _ := congrArg VectorBatchedEventList.events hview
  obtain ⟨hlength, hcount, hsize⟩ := fitting_le maxCount (L.lineLimit maxSize) (L.listed s)
  obtain ⟨rest, rfl⟩ := hL.front h
  rw [hdata, hevents, Cll.isFront_iff, append_assoc, take_append_of_le_length hlength]
  have hfits := hsize.trans (hL.lineLimit_le maxSize)
  have hle : fitting maxCount (L.lineLimit maxSize) (L.listed s) ≤
      (L.listed s ++ (rest ++ ms)).length := by
    rw [length_append]
    omega
  exact ⟨fun hfront => hfront.2.2.2.2, fun hmore => ⟨hle, rfl, hcount, hfits, hmore⟩⟩

end ListsFrom

theorem MemoryEventBatch.isFront {m : MemoryEventBatch} {maxCount maxSize : Nat}
    {l : VectorBatchedEventList} (hl : m.getEventsForUpload maxCount maxSize = some l) :
    IsFront m.lines maxCount maxSize l := by
  rw [m.getEventsForUpload_eq] at hl
  split at hl
  · cases hl
  · rw [← Option.some.inj hl]
    exact isFront_fitting le_rfl

theorem FileEventBatch.Holds.isFront {b : FileEventBatch} {content : List UInt8}
    {ls : List (List UInt8)} {maxCount maxSize : Nat} {l : VectorBatchedEventList}
    (h : Holds (b, content) ls)
    (hl : (b.getEventsForUpload content maxCount maxSize).1 = some l) :
    IsFront ls maxCount maxSize l := by
  rcases h with h | ⟨hfd, _, _⟩
  · rw [h.getEventsForUpload_eq] at hl
    split at hl
    · cases hl
    · rw [← Option.some.inj hl]
      exact isFront_fitting (min_le_left _ _)
  · rw [getEventsForUpload, if_pos (.inl hfd)] at hl
    cases hl

/-! ## Numbered files -/

namespace MultiFileEventBatch

/-- The files hold the lines `ls`, and none is without events unless it is the only
one. -/
def Filled (s : MultiFileEventBatch × Directory) (ls : List (List UInt8)) : Prop :=
  (∃ front olds newest, Layout s.1 s.2 front olds newest ∧
    ∀ f ∈ front ++ olds, Lines.lines 10 f.2 ≠ [] ∧ Lines.lines 10 newest ≠ []) ∧ s.2.events = ls

variable {ls : List (List UInt8)} {s : MultiFileEventBatch × Directory}

theorem Filled.tidy (h : Filled s ls) : Tidy s ls := by
  obtain ⟨⟨front, olds, newest, hlayout, hfilled⟩, hls⟩ := h
  exact ⟨⟨front, olds, newest, hlayout, fun f hf => (hfilled f hf).1⟩, hls⟩

/-- Events remain behind a file that is not the newest. -/
theorem Filled.first_length (h : Filled s ls) (hlater : s.1.hasLater s.2 = true) :
    (s.1.firstEvents s.2).length < ls.length := by
  obtain ⟨⟨front, olds, newest, h, hfilled⟩, rfl⟩ := h
  obtain ⟨_, _, rest, _, hsplit, _, _, hlast⟩ := h.getEventsForUpload_file
  have hne : rest ≠ [] := by
    rintro rfl
    have hnewest := suffix_nil.mp (hlast hlater)
    have hfiles : front ++ olds ≠ [] := by
      intro hnil
      obtain ⟨rfl, rfl⟩ := append_eq_nil_iff.mp hnil
      rw [(h.first_of_none h.oldestBatch_eq_none).2] at hlater
      cases hlater
    obtain ⟨f, files, hf⟩ := exists_cons_of_ne_nil hfiles
    exact (hfilled f (by rw [hf]; exact mem_cons_self)).2 hnewest
  rw [hsplit, length_append, Nat.lt_add_right_iff_pos, length_pos_iff]
  exact hne

/-- **A list of numbered files is a front of all their events.** -/
theorem multiFile_listsFront : eventBatch.ListsFront Filled true where
  hasEvents h := eventBatch_drains.hasEvents h.tidy
  lists := by
    intro s ls maxCount maxSize h
    have hfront := eventBatch_listsFrom.front h.tidy.represents
    have hnil : s.1.firstEvents s.2 = [] ↔ ls = [] := by
      refine ⟨fun hnil => by_contra fun hne => h.tidy.first_ne_nil hne hnil, ?_⟩
      rintro rfl
      exact prefix_nil.mp hfront
    rw [Option.isSome_iff_ne_none, ne_eq, eventBatch_listsFrom.eq_none h.tidy.represents]
    change ¬ (s.1.firstEvents s.2 = [] ∨ _) ↔ _
    rw [hnil]
    simp [listing]
  front := by
    intro s ls l maxCount maxSize h hl
    have hrep := h.tidy.represents
    have hfront := eventBatch_listsFrom.isFront_iff hrep hl [] (eventBatch.hasMoreEvents l)
    rw [append_nil] at hfront
    refine hfront.mpr ?_
    rw [eventBatch_listsFrom.hasMoreEvents_eq hrep hl, Bool.or_eq_true, decide_eq_true_iff]
    have hlength := (fitting_le maxCount (listing.lineLimit maxSize) (listing.listed s)).1
    cases hlater : listing.later s with
    | true =>
      have hless : (listing.listed s).length < ls.length := h.first_length hlater
      simp only [true_or, true_iff]
      omega
    | false => simp [eventBatch_listsFrom.last hrep hlater]

-- Two files with an event each.
example : Filled (construct 1 9 [(0, [1, 10]), (1, [2, 10])]) [[1, 10], [2, 10]] :=
  ⟨⟨[], [(0, [1, 10])], [2, 10], ⟨rfl, by simp [Directory.Ordered]; decide, .none, rfl, by decide,
    ⟨forall_mem_singleton.mpr ⟨[2], by decide, rfl⟩, rfl, rfl, rfl, _, rfl, by decide⟩, rfl⟩,
    by decide⟩, rfl⟩

end MultiFileEventBatch

/-! ## A buffer in front of a batch -/

theorem subSize_eq {a b : Nat} (ha : a < 2 ^ 64) (hb : b ≤ a) : subSize a b = a - b := by
  rw [subSize, show a + 2 ^ 64 - b = a - b + 2 ^ 64 by omega, Nat.add_mod_right]
  exact Nat.mod_eq_of_lt (by omega)

namespace BufferedEventBatch
variable {σ ℓ : Type}

/-- What the getters of a list answer, with `none` where they go through a null
pointer. -/
def view (B : EventBatch σ ℓ) (l : BufferedEventList ℓ) : Option VectorBatchedEventList :=
  (getData B l).map (⟨·, getEventCount B l, hasMoreEvents B l⟩)

theorem view_memory (B : EventBatch σ ℓ) (l : Option VectorBatchedEventList) :
    view B (.memory l) = l := by
  cases l <;> rfl

/-- When the list of a buffer is right. One that begins with the wrapped batch says that events
remain if they are of a file in front of others; one of the memory alone is given when the wrapped
batch has none to list, and these may be in front of it. -/
def Right (L : Listing σ) (b : BufferedEventBatch σ) (ls : List (List UInt8))
    (maxCount maxSize : Nat) : Prop :=
  let mem := b.mem.lines
  maxCount ≠ 0 ∧
    if L.listed b.wrapped = [] then
      maxSize ≠ 0 ∧ mem ≠ [] ∧ (ls = [] ∨ fitting maxCount maxSize mem < mem.length ∧
        mem.take (fitting maxCount maxSize mem) <+: ls ++ mem)
    else
      (maxSize = 0 → L.listsNothing = true) ∧ (L.later b.wrapped = true →
        fitting maxCount (L.lineLimit maxSize) (L.listed b.wrapped) < (ls ++ mem).length)

variable {B : EventBatch σ ℓ} {HoldsW : σ → List (List UInt8) → Prop} {OutW : ℓ → σ → Prop}
  {L : Listing σ} {b : BufferedEventBatch σ} {ls : List (List UInt8)} {maxCount maxSize : Nat}

section
variable (hL : B.ListsFrom HoldsW OutW L) (hw : HoldsW b.wrapped ls)
include hL hw

theorem isFront_wrapped {l : ℓ}
    (hl : (B.getEventsForUpload maxCount maxSize b.wrapped).1 = some l) :
    IsFront (ls ++ b.mem.lines) maxCount maxSize
        ⟨B.getData l, B.getEventCount l, b.mem.hasEvents || B.hasMoreEvents l⟩ ↔
      (L.later b.wrapped = true →
        fitting maxCount (L.lineLimit maxSize) (L.listed b.wrapped) <
          (ls ++ b.mem.lines).length) := by
  rw [hL.isFront_iff hw hl, hL.hasMoreEvents_eq hw hl, Bool.or_eq_true, Bool.or_eq_true,
    decide_eq_true_iff, b.mem.hasEvents_iff, ← length_pos_iff]
  have hlength := (fitting_le maxCount (L.lineLimit maxSize) (L.listed b.wrapped)).1
  cases hlater : L.later b.wrapped with
  | true => simp
  | false =>
    rw [hL.last hw hlater] at hlength ⊢
    rw [length_append]
    simp only [Bool.false_eq_true, false_or, false_imp_iff, iff_true]
    omega

theorem isFront_merged (hcount : maxCount < 2 ^ 64) (hsize : maxSize < 2 ^ 64) {l : ℓ}
    (hl : (B.getEventsForUpload maxCount maxSize b.wrapped).1 = some l)
    (hall : B.hasMoreEvents l = false) {mem : VectorBatchedEventList}
    (hmem : b.mem.getEventsForUpload (subSize maxCount (B.getEventCount l))
      (subSize maxSize (B.getData l).length) = some mem) :
    L.later b.wrapped = false ∧ IsFront (ls ++ b.mem.lines) maxCount maxSize
      ⟨B.getData l ++ mem.data, B.getEventCount l + mem.events,
        B.hasMoreEvents l || mem.moreEvents⟩ := by
  have hmore := hL.hasMoreEvents_eq hw hl
  rw [hall, eq_comm, Bool.or_eq_false_iff, decide_eq_false_iff_not] at hmore
  obtain ⟨hlater, hfull⟩ := hmore
  refine ⟨hlater, ?_⟩
  have hview := hL.view_eq hw hl
  obtain ⟨hlength, hle, hbytes⟩ := fitting_le maxCount (L.lineLimit maxSize) (L.listed b.wrapped)
  have hlimit := hL.lineLimit_le maxSize
  rw [hL.last hw hlater] at hfull hlength hle hbytes hview
  have hfit := Nat.le_antisymm hlength (Nat.not_lt.mp hfull)
  have hevents : B.getEventCount l = ls.length :=
    (congrArg VectorBatchedEventList.events hview).trans hfit
  have hdata : B.getData l = ls.flatten := by
    refine (congrArg VectorBatchedEventList.data hview).trans ?_
    rw [hfit, take_length]
  rw [hfit] at hle
  rw [hfit, take_length] at hbytes
  rw [hdata, hevents, subSize_eq hcount hle, subSize_eq hsize (hbytes.trans hlimit)] at hmem
  obtain ⟨done, rest, hlines, rfl, hcount', hsize'⟩ := MemoryEventBatch.listed_spec hmem
  -- the memory keeps to what the wrapped batch left of the limits
  rw [hdata, hevents, hall, hlines]
  refine ⟨ls ++ done, rest, (append_assoc _ _ _).symm, flatten_append.symm, length_append.symm,
    ?_, ?_, ?_⟩
  · change ls.length + done.length ≤ maxCount
    omega
  · change (ls.flatten ++ done.flatten).length ≤ maxSize
    rw [length_append]
    omega
  · rw [Bool.false_or, decide_eq_true_iff, length_append, Nat.lt_add_right_iff_pos, length_pos_iff]

end

theorem isFront_memory (hls : ∀ l ∈ ls, Lines.IsLine 10 l) {mem : VectorBatchedEventList}
    (hmem : b.mem.getEventsForUpload maxCount maxSize = some mem) :
    IsFront (ls ++ b.mem.lines) maxCount maxSize mem ↔
      ls = [] ∨ fitting maxCount maxSize b.mem.lines < b.mem.lines.length ∧
        b.mem.lines.take (fitting maxCount maxSize b.mem.lines) <+: ls ++ b.mem.lines := by
  rw [b.mem.getEventsForUpload_eq] at hmem
  split at hmem
  · cases hmem
  obtain ⟨hlength, hcount, hsize⟩ := fitting_le maxCount maxSize b.mem.lines
  rw [← Option.some.inj hmem, Cll.isFront_iff, decide_eq_true_iff, length_append]
  generalize fitting maxCount maxSize b.mem.lines = n at *
  constructor
  · rintro ⟨_, hdata, _, _, hmore⟩
    refine or_iff_not_imp_left.mpr fun hne => ⟨hmore.mpr ?_, ?_⟩
    · have := length_pos_iff.mpr hne
      omega
    · -- lists of lines with the same bytes are the same
      have hlines : ∀ d ∈ ls ++ b.mem.lines, Lines.IsLine 10 d :=
        forall_mem_append.mpr ⟨hls, b.mem.lines_isLine⟩
      have hsame := congrArg (Lines.lines 10) hdata
      rw [Lines.lines_flatten 10 fun d hd => b.mem.lines_isLine d (mem_of_mem_take hd),
        Lines.lines_flatten 10 fun d hd => hlines d (mem_of_mem_take hd)] at hsame
      rw [hsame]
      exact take_prefix _ _
  · rintro (rfl | ⟨hless, hfront⟩)
    · rw [nil_append, length_nil, Nat.zero_add]
      exact ⟨hlength, rfl, hcount, hsize, Iff.rfl⟩
    · have htake : b.mem.lines.take n = (ls ++ b.mem.lines).take n := by
        have hprefix := prefix_iff_eq_take.mp hfront
        rwa [length_take, min_eq_left hlength] at hprefix
      exact ⟨by omega, congrArg flatten htake, hcount, hsize, by omega⟩

/-- **The list of a buffer** is right. -/
theorem right_iff (hB : B.plain.IsStore HoldsW OutW) (hL : B.ListsFrom HoldsW OutW L)
    (hw : HoldsW b.wrapped ls) (hcount : maxCount < 2 ^ 64) (hsize : maxSize < 2 ^ 64) :
    (∃ v, view B (b.getEventsForUpload B maxCount maxSize).1 = some v ∧
        IsFront (ls ++ b.mem.lines) maxCount maxSize v) ↔ Right L b ls maxCount maxSize := by
  have hnone := hL.eq_none hw maxCount maxSize
  rw [Right]
  rcases getEventsForUpload_cases B b maxCount maxSize with ⟨l, w, hget, hlist⟩ | ⟨w, hempty, hlist⟩
  · have hl : (B.getEventsForUpload maxCount maxSize b.wrapped).1 = some l := by rw [hget]
    rw [hl] at hnone
    obtain ⟨hne, hcount0, hbytes⟩ : L.listed b.wrapped ≠ [] ∧ maxCount ≠ 0 ∧
        (maxSize = 0 → L.listsNothing = true) := by simpa using hnone
    simp only [if_neg hne, ne_eq, hcount0, not_false_iff, true_and, and_iff_right hbytes]
    rcases hlist with hlist | ⟨mem, hall, hmem, hlist⟩
    · rw [hlist, ← isFront_wrapped hL hw hl]
      simp [view, getData, getEventCount, hasMoreEvents]
    · obtain ⟨hlater, hfront⟩ := isFront_merged hL hw hcount hsize hl hall hmem
      rw [hlist, hlater]
      exact iff_of_true ⟨_, rfl, hfront⟩ fun h => absurd h Bool.false_ne_true
  · -- the wrapped batch gave nothing, and what counts is the memory
    have hrefused : L.listed b.wrapped = [] ∨ maxCount = 0 ∨
        maxSize = 0 ∧ L.listsNothing = false := by
      rcases hempty with ⟨hno, _⟩ | hget
      · have hnil : ls = [] :=
          by_contra fun hne => Bool.false_ne_true (hno.symm.trans (hL.hasEvents hw hne))
        exact .inl (prefix_nil.mp (hnil ▸ hL.front hw))
      · exact hnone.mp (congrArg Prod.fst hget)
    rw [hlist, view_memory]
    have hmem := b.mem.getEventsForUpload_eq maxCount maxSize
    by_cases hstop : b.mem.lines = [] ∨ maxCount = 0 ∨ maxSize = 0
    · rw [if_pos hstop] at hmem
      rw [hmem]
      refine iff_of_false (by simp) ?_
      rintro ⟨hcount0, hright⟩
      split at hright
      · obtain ⟨hsize0, hlines, _⟩ := hright
        exact hstop.elim hlines (Or.elim · hcount0 hsize0)
      · next hne =>
        obtain ⟨hsize0, hnothing⟩ := (hrefused.resolve_left hne).resolve_left hcount0
        exact Bool.false_ne_true (hnothing.symm.trans (hright.1 hsize0))
    · rw [if_neg hstop] at hmem
      obtain ⟨hlines, hcount0, hsize0⟩ : b.mem.lines ≠ [] ∧ maxCount ≠ 0 ∧ maxSize ≠ 0 := by
        simpa only [not_or] using hstop
      have hnil := hrefused.resolve_right fun h => h.elim hcount0 fun h => hsize0 h.1
      rw [if_pos hnil, and_iff_right hcount0, and_iff_right hsize0, and_iff_right hlines,
        ← isFront_memory (hB.isLine hw) hmem, hmem]
      exact ⟨by rintro ⟨v, ⟨⟩, hfront⟩; exact hfront, fun hfront => ⟨_, rfl, hfront⟩⟩

end BufferedEventBatch

/-! ## The three batches -/

/-- **Lists are fronts of the pending events, within the limits**: every list of a memory or of a
file, and that of a buffer exactly if it is right. -/
theorem upload_lists {maxCount maxSize : Nat} (hcount : maxCount < 2 ^ 64)
    (hsize : maxSize < 2 ^ 64) :
    (∀ (m : MemoryEventBatch) (l : VectorBatchedEventList),
      m.getEventsForUpload maxCount maxSize = some l → IsFront m.lines maxCount maxSize l) ∧
    (∀ (b : FileEventBatch) (content : List UInt8) (ls : List (List UInt8))
      (l : VectorBatchedEventList), Holds (b, content) ls →
      (b.getEventsForUpload content maxCount maxSize).1 = some l →
        IsFront ls maxCount maxSize l) ∧
    ∀ (k : Store) (b : BufferedEventBatch k.State) (ls : List (List UInt8)),
      k.Holds b.wrapped ls →
        ((∃ v, BufferedEventBatch.view k.eventBatch
            (b.getEventsForUpload k.eventBatch maxCount maxSize).1 = some v ∧
            IsFront (ls ++ b.mem.lines) maxCount maxSize v) ↔
          BufferedEventBatch.Right k.listing b ls maxCount maxSize) := by
  refine ⟨fun m l hl => MemoryEventBatch.isFront hl, fun b content ls l h hl => h.isFront hl, ?_⟩
  exact fun k b ls hw => BufferedEventBatch.right_iff k.isStore k.listsFrom hw hcount hsize

namespace BufferedEventBatch

/-- A buffer that holds `items`, in front of an empty file. -/
def onEmptyFile (items : List Event) : BufferedEventBatch (FileEventBatch × List UInt8) :=
  ⟨FileEventBatch.construct true [], items, 10⟩

theorem onEmptyFile_holds (items : List Event) :
    FileEventBatch.Holds (onEmptyFile items).wrapped [] :=
  .inl (construct_represents [])

theorem upload_lists_buffered :
    10 < 2 ^ 64 ∧ ∃ v, view FileEventBatch.eventBatch
        ((onEmptyFile [firstEvent]).getEventsForUpload FileEventBatch.eventBatch 10
          10).1 = some v ∧
      IsFront ([] ++ (onEmptyFile [firstEvent]).mem.lines) 10 10 v :=
  ⟨by decide, ((upload_lists (by decide) (by decide)).2.2 .file _ []
    (onEmptyFile_holds _)).mpr ⟨by decide, by decide, by decide, .inl rfl⟩⟩

/-- **A list around a null pointer** is what an empty buffer returns. -/
theorem empty_buffer_list :
    (onEmptyFile []).getEventsForUpload eventBatch 10 10 =
        (.memory none, onEmptyFile []) ∧
      view eventBatch
        ((onEmptyFile []).getEventsForUpload eventBatch 10 10).1 = none := by
  have hlist : (onEmptyFile []).getEventsForUpload eventBatch 10 10 =
      (.memory none, onEmptyFile []) := rfl
  exact ⟨hlist, by rw [hlist, view_memory]⟩

end BufferedEventBatch

end Cll
