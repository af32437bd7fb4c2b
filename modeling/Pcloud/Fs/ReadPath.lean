import Pcloud.Cache.PageCache
import Pcloud.Fs.Writeback
import Pcloud.Lib.Segments

/-!
# Staged reads (`pcloud-fs/src/read_path.rs`, `lib.rs`)

A read goes window by window. A window that the page cache holds is served from there, another is
taken from the staged bytes and put into the cache. The key of a window is its path and its start: it does
not tell which bytes were staged when the window was taken.
-/

open Runs

namespace Pcloud

inductive ReadSource
  | stage
  | cache
deriving DecidableEq

structure ReadResult where
  path : String
  offset : Nat
  bytes : Bytes
  source : ReadSource
  prefetchedUntil : Nat
deriving DecidableEq

inductive ReadPathError
  | invalidRange (path : String) (offset : Nat)
  | missingPath (path : String)
deriving DecidableEq

structure ReadPathService where
  prefetchWindowBytes : Nat := 256 * 1024
  pages : PageCache := {}

namespace ReadPathService

variable (s : ReadPathService)

/-- The window size. -/
def window : Nat := max s.prefetchWindowBytes 1

def windowStart (offset : Nat) : Nat := offset / s.window * s.window

def windowBounds (totalLen offset : Nat) : Except ReadPathError (Nat × Nat) :=
  if totalLen < offset then .error (.invalidRange "" offset)
  else .ok (s.windowStart offset, min totalLen (satAdd (s.windowStart offset) s.window))

def windowCacheKey (path : String) (offset : Nat) : String :=
  "read:" ++ path ++ ":" ++ toString (s.windowStart offset)

/-- The window that the loop takes from the cache, or else from the staged bytes. -/
def fetchWindow (staged : Bytes) (path : String) (cursor : Nat) :
    Except ReadPathError (ReadPathService × Bytes × ReadSource) :=
  let cacheKey := s.windowCacheKey path cursor
  match s.pages.get cacheKey with
  | some window => .ok (s, window, .cache)
  | none => do
    let (windowStart, windowEnd) ← s.windowBounds staged.length cursor
    let window := (staged.drop windowStart).take (windowEnd - windowStart)
    pure ({ s with pages := s.pages.put cacheKey window }, window, .stage)

/-- The variables of the loop. -/
structure Progress where
  cursor : Nat
  bytes : Bytes := []
  prefetchedUntil : Nat
  allFromCache : Bool := true
deriving DecidableEq

/-- The body of the loop. -/
def readStep (staged : Bytes) (path : String) (targetLen : Nat) (pos : Progress) :
    ReadPathService × Except ReadPathError Progress :=
  let windowStart := s.windowStart pos.cursor
  match s.fetchWindow staged path pos.cursor with
  | .error e => (s, .error e)
  | .ok (s, window, source) =>
    let relativeOffset := pos.cursor - windowStart
    if window.length < relativeOffset then (s, .error (.invalidRange path pos.cursor))
    else
      let remaining := targetLen - pos.cursor
      let available := window.length - relativeOffset
      let chunkLen := min available remaining
      (s, .ok
        { cursor := satAdd pos.cursor chunkLen
          bytes := pos.bytes ++ (window.drop relativeOffset).take chunkLen
          prefetchedUntil := max pos.prefetchedUntil (windowStart + window.length)
          allFromCache := pos.allFromCache && source == .cache })

/-- The loop, for `fuel` turns. It gives nothing where it has not ended by then. -/
def readLoop (staged : Bytes) (path : String) (targetLen : Nat) :
    Nat → ReadPathService → Progress → Option (ReadPathService × Except ReadPathError Progress)
  | 0, s, pos => if pos.cursor < targetLen then none else some (s, .ok pos)
  | fuel + 1, s, pos =>
    if pos.cursor < targetLen then
      match s.readStep staged path targetLen pos with
      | (s, .error e) => some (s, .error e)
      | (s, .ok pos) => readLoop staged path targetLen fuel s pos
    else some (s, .ok pos)

/-- `read`, its loop for `fuel` turns. -/
def read (fuel : Nat) (staging : StagingCache Buffer) (path : String) (offset requestedBytes : Nat) :
    Option (ReadPathService × Except ReadPathError ReadResult) :=
  match staging.get path with
  | none => some (s, .error (.missingPath path))
  | some staged =>
    if staged.bytes.length < offset then some (s, .error (.invalidRange path offset))
    else if requestedBytes = 0 then
      some (s, .ok { path, offset, bytes := [], source := .cache, prefetchedUntil := offset })
    else
      let targetLen := min staged.bytes.length (satAdd offset requestedBytes)
      (readLoop staged.bytes path targetLen fuel s { cursor := offset, prefetchedUntil := offset }).map
        fun (s, result) => (s, result.map fun pos =>
          { path, offset, bytes := pos.bytes, source := if pos.allFromCache then .cache else .stage
            prefetchedUntil := pos.prefetchedUntil })

/-! ## What the cache may hold -/

/-- Where the window of `cursor` ends for a read that ends at `targetLen`. -/
def nextCursor (targetLen cursor : Nat) : Nat := min targetLen (s.windowStart cursor + s.window)

/-- The window of `cursor` in the staged bytes. -/
def stagedWindow (staged : Bytes) (cursor : Nat) : Bytes :=
  (staged.drop (s.windowStart cursor)).take (min staged.length (s.windowStart cursor + s.window) - s.windowStart cursor)

/-- What a miss leaves in the cache. -/
def afterMiss (staged : Bytes) (path : String) (cursor : Nat) : ReadPathService :=
  { s with pages := s.pages.put (s.windowCacheKey path cursor) (s.stagedWindow staged cursor) }

/-- From `cursor` on, a window that the cache holds when the read comes to it has the staged bytes
wherever the read takes from it. -/
inductive Current (staged : Bytes) (path : String) (targetLen : Nat) : ReadPathService → Nat → Prop
  | done {s : ReadPathService} {cursor : Nat} : targetLen ≤ cursor → Current staged path targetLen s cursor
  | hit {s : ReadPathService} {cursor : Nat} {window : Bytes} : cursor < targetLen →
    s.pages.get (s.windowCacheKey path cursor) = some window →
    (window.drop (cursor - s.windowStart cursor)).take (s.nextCursor targetLen cursor - cursor) =
      (staged.drop cursor).take (s.nextCursor targetLen cursor - cursor) →
    Current staged path targetLen s (s.nextCursor targetLen cursor) → Current staged path targetLen s cursor
  | miss {s : ReadPathService} {cursor : Nat} : cursor < targetLen →
    s.pages.get (s.windowCacheKey path cursor) = none →
    Current staged path targetLen (s.afterMiss staged path cursor) (s.nextCursor targetLen cursor) →
    Current staged path targetLen s cursor

/-- No page is longer than a window. -/
def Short : Prop := ∀ key page, s.pages.get key = some page → page.length ≤ s.window

variable {s} {staged : Bytes} {path : String} {targetLen : Nat} {pos : Progress}

theorem window_pos (s : ReadPathService) : 0 < s.window := by
  unfold window
  omega

theorem windowStart_le (s : ReadPathService) (cursor : Nat) : s.windowStart cursor ≤ cursor :=
  Nat.div_mul_le_self cursor s.window

theorem lt_windowEnd (s : ReadPathService) (cursor : Nat) : cursor < s.windowStart cursor + s.window := by
  have := Nat.div_add_mod cursor s.window
  have := Nat.mod_lt cursor s.window_pos
  have := Nat.mul_comm s.window (cursor / s.window)
  unfold windowStart
  omega

theorem windowStart_eq {cursor cursor' : Nat} (hle : cursor ≤ cursor')
    (hlt : cursor' < s.windowStart cursor + s.window) :
    s.windowStart cursor' = s.windowStart cursor := by
  have hstart := s.windowStart_le cursor
  unfold windowStart at *
  congr 1
  apply Nat.div_eq_of_lt_le
  · omega
  · rw [Nat.add_mul, Nat.one_mul]
    exact hlt

theorem lt_nextCursor {cursor : Nat} (h : cursor < targetLen) : cursor < s.nextCursor targetLen cursor := by
  have := s.lt_windowEnd cursor
  unfold nextCursor
  omega

@[simp]
theorem afterMiss_window (s : ReadPathService) (staged : Bytes) (path : String) (cursor : Nat) :
    (s.afterMiss staged path cursor).window = s.window := rfl

theorem Short.afterMiss (h : s.Short) (staged : Bytes) (path : String) (cursor : Nat) :
    (s.afterMiss staged path cursor).Short := by
  intro key page hget
  rcases PageCache.get_put hget with ⟨-, rfl⟩ | ⟨-, hold⟩
  · simp only [stagedWindow, List.length_take, afterMiss_window]
    omega
  · exact h key page hold

/-! ## One turn of the loop -/

theorem satAdd_min {a b c : Nat} (h : a ≤ isizeMax) : min a (satAdd b c) = min a (b + c) := by
  unfold satAdd u64Max
  unfold isizeMax at h
  omega

theorem fetchWindow_hit {cursor : Nat} {window : Bytes}
    (hget : s.pages.get (s.windowCacheKey path cursor) = some window) :
    s.fetchWindow staged path cursor = .ok (s, window, .cache) := by
  simp [fetchWindow, hget]

theorem fetchWindow_miss {cursor : Nat} (hmax : staged.length ≤ isizeMax) (hcursor : cursor ≤ staged.length)
    (hget : s.pages.get (s.windowCacheKey path cursor) = none) :
    s.fetchWindow staged path cursor = .ok (s.afterMiss staged path cursor, s.stagedWindow staged cursor, .stage) := by
  have hbounds : s.windowBounds staged.length cursor =
      .ok (s.windowStart cursor, min staged.length (s.windowStart cursor + s.window)) := by
    rw [windowBounds, if_neg (Nat.not_lt.mpr hcursor), satAdd_min hmax]
  simp [fetchWindow, hget, hbounds, afterMiss, stagedWindow, bind, Except.bind, pure, Except.pure]

theorem readStep_of_fetch {s' : ReadPathService} {window : Bytes} {source : ReadSource} (hmax : targetLen ≤ isizeMax)
    (hfetch : s.fetchWindow staged path pos.cursor = .ok (s', window, source))
    (hlength : pos.cursor - s.windowStart pos.cursor ≤ window.length) (hlt : pos.cursor < targetLen) :
    ∃ pos', s.readStep staged path targetLen pos = (s', .ok pos') ∧
      pos'.cursor = pos.cursor +
        min (window.length - (pos.cursor - s.windowStart pos.cursor)) (targetLen - pos.cursor) ∧
      pos'.bytes = pos.bytes ++ (window.drop (pos.cursor - s.windowStart pos.cursor)).take
        (min (window.length - (pos.cursor - s.windowStart pos.cursor)) (targetLen - pos.cursor)) := by
  unfold readStep
  simp only [hfetch, if_neg (Nat.not_lt.mpr hlength)]
  refine ⟨_, rfl, ?_, rfl⟩
  show satAdd _ _ = _
  have hsat : satAdd pos.cursor (min (window.length - (pos.cursor - s.windowStart pos.cursor)) (targetLen - pos.cursor)) =
      pos.cursor + min (window.length - (pos.cursor - s.windowStart pos.cursor)) (targetLen - pos.cursor) := by
    unfold satAdd u64Max
    unfold isizeMax at hmax
    omega
  exact hsat

theorem readStep_past {window : Bytes} (hget : s.pages.get (s.windowCacheKey path pos.cursor) = some window)
    (hlength : window.length < pos.cursor - s.windowStart pos.cursor) :
    s.readStep staged path targetLen pos = (s, .error (.invalidRange path pos.cursor)) := by
  unfold readStep
  simp only [fetchWindow_hit hget, if_pos hlength]

theorem stagedWindow_taken (s : ReadPathService) (htarget : targetLen ≤ staged.length) (cursor : Nat) :
    ((s.stagedWindow staged cursor).drop (cursor - s.windowStart cursor)).take (s.nextCursor targetLen cursor - cursor) =
      (staged.drop cursor).take (s.nextCursor targetLen cursor - cursor) := by
  have hstart := s.windowStart_le cursor
  rw [stagedWindow, List.drop_take, List.drop_drop, List.take_take]
  congr 1
  · unfold nextCursor
    omega
  · congr 1
    omega

theorem readStep_miss (hmax : staged.length ≤ isizeMax) (htarget : targetLen ≤ staged.length)
    (hlt : pos.cursor < targetLen) (hget : s.pages.get (s.windowCacheKey path pos.cursor) = none) :
    ∃ pos', s.readStep staged path targetLen pos = (s.afterMiss staged path pos.cursor, .ok pos') ∧
      pos'.cursor = s.nextCursor targetLen pos.cursor ∧
      pos'.bytes = pos.bytes ++ (staged.drop pos.cursor).take (s.nextCursor targetLen pos.cursor - pos.cursor) := by
  have hstart := s.windowStart_le pos.cursor
  have hend := s.lt_windowEnd pos.cursor
  have hlength : (s.stagedWindow staged pos.cursor).length =
      min staged.length (s.windowStart pos.cursor + s.window) - s.windowStart pos.cursor := by
    simp only [stagedWindow, List.length_take, List.length_drop]
    omega
  have hfetch := fetchWindow_miss hmax (by omega) hget
  obtain ⟨pos', hstep, hcursor, hbytes⟩ := readStep_of_fetch (by omega) hfetch (by omega) hlt
  have hchunk : min ((s.stagedWindow staged pos.cursor).length - (pos.cursor - s.windowStart pos.cursor))
      (targetLen - pos.cursor) = s.nextCursor targetLen pos.cursor - pos.cursor := by
    rw [hlength]
    unfold nextCursor
    omega
  have hnext := s.lt_nextCursor hlt
  refine ⟨pos', hstep, ?_, ?_⟩
  · rw [hcursor, hchunk, Nat.add_sub_of_le (Nat.le_of_lt hnext)]
  · rw [hbytes, hchunk, s.stagedWindow_taken htarget]

theorem readStep_agree (hshort : s.Short) (hmax : staged.length ≤ isizeMax) (htarget : targetLen ≤ staged.length)
    (hlt : pos.cursor < targetLen) {window : Bytes}
    (hget : s.pages.get (s.windowCacheKey path pos.cursor) = some window)
    (hagree : (window.drop (pos.cursor - s.windowStart pos.cursor)).take (s.nextCursor targetLen pos.cursor - pos.cursor) =
      (staged.drop pos.cursor).take (s.nextCursor targetLen pos.cursor - pos.cursor)) :
    ∃ pos', s.readStep staged path targetLen pos = (s, .ok pos') ∧
      pos'.cursor = s.nextCursor targetLen pos.cursor ∧
      pos'.bytes = pos.bytes ++ (staged.drop pos.cursor).take (s.nextCursor targetLen pos.cursor - pos.cursor) := by
  have hstart := s.windowStart_le pos.cursor
  have hend := s.lt_windowEnd pos.cursor
  have hnext := s.lt_nextCursor hlt
  have hlength := hshort _ _ hget
  have hreach := congrArg List.length hagree
  simp only [List.length_take, List.length_drop] at hreach
  have hchunk : min (window.length - (pos.cursor - s.windowStart pos.cursor)) (targetLen - pos.cursor) =
      s.nextCursor targetLen pos.cursor - pos.cursor := by
    unfold nextCursor at *
    omega
  have hfetch : s.fetchWindow staged path pos.cursor = .ok (s, window, .cache) := fetchWindow_hit hget
  obtain ⟨pos', hstep, hcursor, hbytes⟩ := readStep_of_fetch (by omega) hfetch (by omega) hlt
  refine ⟨pos', hstep, ?_, ?_⟩
  · rw [hcursor, hchunk, Nat.add_sub_of_le (Nat.le_of_lt hnext)]
  · rw [hbytes, hchunk, hagree]

/-! ## The loop -/

theorem readLoop_done {fuel : Nat} (h : targetLen ≤ pos.cursor) :
    readLoop staged path targetLen fuel s pos = some (s, .ok pos) := by
  rcases fuel with _ | fuel <;> simp [readLoop, Nat.not_lt.mpr h]

theorem readLoop_succ {fuel : Nat} {s' : ReadPathService} {pos' : Progress} (h : pos.cursor < targetLen)
    (hstep : s.readStep staged path targetLen pos = (s', .ok pos')) :
    readLoop staged path targetLen (fuel + 1) s pos = readLoop staged path targetLen fuel s' pos' := by
  rw [readLoop, if_pos h, hstep]

theorem prefix_readStep {s' : ReadPathService} {pos' : Progress}
    (h : s.readStep staged path targetLen pos = (s', .ok pos')) : pos.bytes <+: pos'.bytes := by
  unfold readStep at h
  split at h
  · simp at h
  · simp only at h
    split_ifs at h
    · simp at h
    · simp only [Prod.mk.injEq, Except.ok.injEq] at h
      obtain ⟨-, rfl⟩ := h
      exact List.prefix_append _ _

theorem prefix_readLoop {fuel : Nat} {s' : ReadPathService} {pos' : Progress}
    (h : readLoop staged path targetLen fuel s pos = some (s', .ok pos')) : pos.bytes <+: pos'.bytes := by
  induction fuel generalizing s pos with
  | zero =>
    unfold readLoop at h
    split_ifs at h
    simp only [Option.some.injEq, Prod.mk.injEq, Except.ok.injEq] at h
    obtain ⟨-, rfl⟩ := h
    exact List.prefix_rfl
  | succ fuel ih =>
    unfold readLoop at h
    split_ifs at h
    · split at h
      · simp at h
      · rename_i hstep
        exact (prefix_readStep hstep).trans (ih h)
    · simp only [Option.some.injEq, Prod.mk.injEq, Except.ok.injEq] at h
      obtain ⟨-, rfl⟩ := h
      exact List.prefix_rfl

theorem take_drop_append {a b c : Nat} (hab : a ≤ b) (hbc : b ≤ c) :
    (staged.drop a).take (b - a) ++ (staged.drop b).take (c - b) = (staged.drop a).take (c - a) := by
  rw [show c - a = (b - a) + (c - b) by omega, List.take_add, List.drop_drop, Nat.add_sub_of_le hab]

theorem readLoop_of_current {cursor : Nat} (hcurrent : Current staged path targetLen s cursor) (hshort : s.Short)
    (hmax : staged.length ≤ isizeMax) (htarget : targetLen ≤ staged.length) (hcursor : pos.cursor = cursor)
    {fuel : Nat} (hfuel : targetLen - cursor ≤ fuel) :
    ∃ s' pos', readLoop staged path targetLen fuel s pos = some (s', .ok pos') ∧
      pos'.bytes = pos.bytes ++ (staged.drop cursor).take (targetLen - cursor) := by
  induction hcurrent generalizing pos fuel with
  | @done s cursor hdone =>
    refine ⟨s, pos, readLoop_done (by omega), ?_⟩
    simp [Nat.sub_eq_zero_of_le hdone]
  | @hit s cursor window hlt hget hagree hrest ih =>
    subst hcursor
    have hnext := s.lt_nextCursor hlt
    obtain ⟨fuel, rfl⟩ := Nat.exists_eq_add_one.mpr (show 0 < fuel by omega)
    obtain ⟨next, hstep, hcursor, hread⟩ := readStep_agree hshort hmax htarget hlt hget hagree
    obtain ⟨s', pos', hloop, hbytes⟩ := ih hshort hcursor (show _ ≤ fuel by omega)
    refine ⟨s', pos', (readLoop_succ hlt hstep).trans hloop, ?_⟩
    rw [hbytes, hread, List.append_assoc, take_drop_append (Nat.le_of_lt hnext) (Nat.min_le_left _ _)]
  | @miss s cursor hlt hget hrest ih =>
    subst hcursor
    have hnext := s.lt_nextCursor hlt
    obtain ⟨fuel, rfl⟩ := Nat.exists_eq_add_one.mpr (show 0 < fuel by omega)
    obtain ⟨next, hstep, hcursor, hread⟩ := readStep_miss hmax htarget hlt hget
    obtain ⟨s', pos', hloop, hbytes⟩ := ih (hshort.afterMiss staged path pos.cursor) hcursor (show _ ≤ fuel by omega)
    refine ⟨s', pos', (readLoop_succ hlt hstep).trans hloop, ?_⟩
    rw [hbytes, hread, List.append_assoc, take_drop_append (Nat.le_of_lt hnext) (Nat.min_le_left _ _)]

theorem le_of_readLoop {fuel : Nat} {s' : ReadPathService} {pos' : Progress} {window : Bytes}
    (hlt : pos.cursor < targetLen) (hget : s.pages.get (s.windowCacheKey path pos.cursor) = some window)
    (hloop : readLoop staged path targetLen (fuel + 1) s pos = some (s', .ok pos')) :
    pos.cursor - s.windowStart pos.cursor ≤ window.length := by
  by_contra hpast
  rw [readLoop, if_pos hlt, readStep_past hget (Nat.lt_of_not_le hpast)] at hloop
  simp at hloop

/-- Where the rest is read from current windows, and what a cached window gives is right, that window is
current as well: the rest would start inside it otherwise, where it has nothing left. -/
theorem current_of_rest {cursor : Nat} {window : Bytes} (hshort : s.Short) (htarget : targetLen ≤ staged.length)
    (hlt : cursor < targetLen) (hget : s.pages.get (s.windowCacheKey path cursor) = some window)
    (htaken : (window.drop (cursor - s.windowStart cursor)).take
        (min (window.length - (cursor - s.windowStart cursor)) (targetLen - cursor)) =
      (staged.drop cursor).take (min (window.length - (cursor - s.windowStart cursor)) (targetLen - cursor)))
    (hrest : Current staged path targetLen s
      (cursor + min (window.length - (cursor - s.windowStart cursor)) (targetLen - cursor))) :
    Current staged path targetLen s cursor := by
  set chunk := min (window.length - (cursor - s.windowStart cursor)) (targetLen - cursor) with hchunk
  have hstart := s.windowStart_le cursor
  have hend := s.lt_windowEnd cursor
  have hlength := hshort _ _ hget
  have hnext : s.nextCursor targetLen cursor = min targetLen (s.windowStart cursor + s.window) := rfl
  by_cases hwhole : chunk = s.nextCursor targetLen cursor - cursor
  · have hcursor : cursor + chunk = s.nextCursor targetLen cursor := by omega
    exact .hit hlt hget (hwhole ▸ htaken) (hcursor ▸ hrest)
  · have hsame : s.windowStart (cursor + chunk) = s.windowStart cursor :=
      s.windowStart_eq (Nat.le_add_right cursor chunk) (by omega)
    have hkey : s.windowCacheKey path (cursor + chunk) = s.windowCacheKey path cursor := by
      rw [windowCacheKey, windowCacheKey, hsame]
    rcases hrest with hdone | ⟨hlt', hget', hagree, -⟩ | ⟨-, hget', -⟩
    · omega
    · rw [hkey, hget, Option.some.injEq] at hget'
      subst hget'
      have hnothing := congrArg List.length hagree
      have := s.lt_nextCursor hlt'
      have : s.nextCursor targetLen (cursor + chunk) ≤ targetLen := Nat.min_le_left _ _
      simp only [List.length_take, List.length_drop, hsame] at hnothing
      omega
    · rw [hkey, hget] at hget'
      cases hget'

/-- What is read right was read from current windows. The induction is on the turns. A window that
gives less than it should leaves the cursor at its own end, and the next turns find the same window there. -/
theorem current_of_readLoop {fuel : Nat} (hshort : s.Short) (hmax : staged.length ≤ isizeMax)
    (htarget : targetLen ≤ staged.length) {s' : ReadPathService} {pos' : Progress}
    (hloop : readLoop staged path targetLen fuel s pos = some (s', .ok pos'))
    (hbytes : pos'.bytes = pos.bytes ++ (staged.drop pos.cursor).take (targetLen - pos.cursor)) :
    Current staged path targetLen s pos.cursor := by
  induction fuel generalizing s pos with
  | zero =>
    unfold readLoop at hloop
    split_ifs at hloop with hlt
    exact .done (Nat.le_of_not_lt hlt)
  | succ fuel ih =>
    rcases Nat.lt_or_ge pos.cursor targetLen with hlt | hdone
    · rcases hget : s.pages.get (s.windowCacheKey path pos.cursor) with _ | window
      · obtain ⟨next, hstep, hcursor, hread⟩ := readStep_miss hmax htarget hlt hget
        rw [readLoop_succ hlt hstep] at hloop
        refine .miss hlt hget (hcursor ▸ ih (hshort.afterMiss staged path pos.cursor) hloop ?_)
        rw [hread, hcursor, List.append_assoc,
          take_drop_append (Nat.le_of_lt (s.lt_nextCursor hlt)) (Nat.min_le_left _ _), hbytes]
      · have hlength := le_of_readLoop hlt hget hloop
        have hfetch : s.fetchWindow staged path pos.cursor = .ok (s, window, .cache) := fetchWindow_hit hget
        obtain ⟨next, hstep, hcursor, hread⟩ := readStep_of_fetch (by omega) hfetch hlength hlt
        rw [readLoop_succ hlt hstep] at hloop
        set chunk := min (window.length - (pos.cursor - s.windowStart pos.cursor)) (targetLen - pos.cursor) with hchunk
        have htaken : (window.drop (pos.cursor - s.windowStart pos.cursor)).take chunk =
            (staged.drop pos.cursor).take chunk := by
          have hprefix := prefix_readLoop hloop
          rw [hread, hbytes, List.prefix_append_right_inj] at hprefix
          have hsize : ((window.drop (pos.cursor - s.windowStart pos.cursor)).take chunk).length = chunk := by
            rw [List.length_take, List.length_drop]
            omega
          rw [List.prefix_iff_eq_take.mp hprefix, hsize, List.take_take, Nat.min_eq_left (Nat.min_le_right _ _)]
        have hrest : Current staged path targetLen s (pos.cursor + chunk) := by
          rw [← hcursor]
          apply ih hshort hloop
          have hsplit : (staged.drop pos.cursor).take (pos.cursor + chunk - pos.cursor) ++ _ = _ :=
            take_drop_append (Nat.le_add_right pos.cursor chunk) (show pos.cursor + chunk ≤ targetLen by omega)
          rw [Nat.add_sub_cancel_left] at hsplit
          rw [hread, htaken, hcursor, List.append_assoc, hsplit, hbytes]
        exact current_of_rest hshort htarget hlt hget htaken hrest
    · exact .done hdone

theorem readLoop_stuck {cursor : Nat} {window : Bytes} (hmax : targetLen ≤ isizeMax) (hlt : cursor < targetLen)
    (hget : s.pages.get (s.windowCacheKey path cursor) = some window)
    (hlength : window.length = cursor - s.windowStart cursor) (hcursor : pos.cursor = cursor) (fuel : Nat) :
    readLoop staged path targetLen fuel s pos = none := by
  subst hcursor
  induction fuel generalizing pos with
  | zero => rw [readLoop, if_pos hlt]
  | succ fuel ih =>
    have hfetch : s.fetchWindow staged path pos.cursor = .ok (s, window, .cache) := fetchWindow_hit hget
    obtain ⟨next, hstep, hcursor, -⟩ := readStep_of_fetch hmax hfetch (Nat.le_of_eq hlength.symm) hlt
    have hstay : next.cursor = pos.cursor := by omega
    rw [readLoop_succ hlt hstep]
    apply ih <;> rwa [hstay]

theorem readStep_moves (hmax : staged.length ≤ isizeMax) (htarget : targetLen ≤ staged.length)
    (hlt : pos.cursor < targetLen) {s' : ReadPathService} {next : Progress}
    (hstep : s.readStep staged path targetLen pos = (s', .ok next)) :
    pos.cursor < next.cursor ∨ ∀ fuel, readLoop staged path targetLen fuel s pos = none := by
  rcases hget : s.pages.get (s.windowCacheKey path pos.cursor) with _ | window
  · obtain ⟨next', hstep', hcursor, -⟩ := readStep_miss hmax htarget hlt hget
    obtain ⟨-, rfl⟩ : _ ∧ next' = next := by simpa [hstep] using hstep'.symm
    exact .inl (hcursor ▸ s.lt_nextCursor hlt)
  · have hlength : pos.cursor - s.windowStart pos.cursor ≤ window.length := by
      by_contra hpast
      rw [readStep_past hget (Nat.lt_of_not_le hpast)] at hstep
      simp at hstep
    have hfetch : s.fetchWindow staged path pos.cursor = .ok (s, window, .cache) := fetchWindow_hit hget
    obtain ⟨next', hstep', hcursor, -⟩ := readStep_of_fetch (by omega) hfetch hlength hlt
    obtain ⟨-, rfl⟩ : _ ∧ next' = next := by simpa [hstep] using hstep'.symm
    rcases Nat.eq_or_lt_of_le hlength with heq | hlt'
    · exact .inr fun fuel => readLoop_stuck (by omega) hlt hget heq.symm rfl fuel
    · exact .inl (by omega)

theorem readLoop_enough {fuel fuel' : Nat} (hmax : staged.length ≤ isizeMax) (htarget : targetLen ≤ staged.length)
    {result : ReadPathService × Except ReadPathError Progress}
    (hloop : readLoop staged path targetLen fuel s pos = some result) (hfuel : targetLen - pos.cursor ≤ fuel') :
    readLoop staged path targetLen fuel' s pos = some result := by
  induction fuel generalizing s pos fuel' with
  | zero =>
    unfold readLoop at hloop
    split_ifs at hloop with hlt
    rw [readLoop_done (Nat.le_of_not_lt hlt), hloop]
  | succ fuel ih =>
    rcases Nat.lt_or_ge pos.cursor targetLen with hlt | hdone
    · obtain ⟨fuel', rfl⟩ := Nat.exists_eq_add_one.mpr (show 0 < fuel' by omega)
      rcases hstep : s.readStep staged path targetLen pos with ⟨s', e | next⟩
      · rw [readLoop, if_pos hlt, hstep] at hloop ⊢
        exact hloop
      · rcases readStep_moves hmax htarget hlt hstep with hmoves | hstuck
        · rw [readLoop_succ hlt hstep] at hloop ⊢
          exact ih hloop (by omega)
        · rw [hstuck] at hloop
          cases hloop
    · rw [readLoop_done hdone] at hloop ⊢
      exact hloop

/-! ## A read -/

/-- The service after a read, and what the read gives, or nothing where it does not end. -/
def readResult (staging : StagingCache Buffer) (path : String) (offset requestedBytes : Nat) :
    Option (ReadPathService × Except ReadPathError ReadResult) :=
  s.read (((staging.get path).map fun staged => staged.bytes.length).getD 0) staging path offset requestedBytes

variable {staging : StagingCache Buffer} {offset requestedBytes : Nat}

theorem readResult_eq_some {result : ReadPathService × Except ReadPathError ReadResult} :
    s.readResult staging path offset requestedBytes = some result ↔
      ∃ fuel, s.read fuel staging path offset requestedBytes = some result := by
  refine ⟨fun h => ⟨_, h⟩, ?_⟩
  rintro ⟨fuel, h⟩
  unfold readResult
  unfold read at h ⊢
  rcases hget : staging.get path with _ | staged
  · simpa [hget] using h
  · simp only [hget] at h
    simp only [Option.map_some, Option.getD_some]
    split_ifs at h ⊢
    · exact h
    · exact h
    · rw [Option.map_eq_some_iff] at h ⊢
      obtain ⟨looped, hloop, hresult⟩ := h
      refine ⟨looped, readLoop_enough staged.fits (Nat.min_le_left _ _) hloop ?_, hresult⟩
      omega

/-- The read ends, and gives the staged bytes from `offset` on. -/
def ReadsStaged (s : ReadPathService) (staging : StagingCache Buffer) (path : String) (offset requestedBytes : Nat)
    (staged : Buffer) : Prop :=
  ∃ fuel service result, s.read fuel staging path offset requestedBytes = some (service, .ok result) ∧
    result.bytes = (staged.bytes.drop offset).take (min staged.bytes.length (offset + requestedBytes) - offset)

theorem readsStaged_iff {staged : Buffer} (hshort : s.Short) (hget : staging.get path = some staged)
    (hoffset : offset ≤ staged.bytes.length) :
    s.ReadsStaged staging path offset requestedBytes staged ↔
      Current staged.bytes path (min staged.bytes.length (offset + requestedBytes)) s offset := by
  unfold ReadsStaged read
  simp only [hget, if_neg (Nat.not_lt.mpr hoffset), staged.min_satAdd]
  rcases Nat.eq_zero_or_pos requestedBytes with rfl | hpos
  · rw [Nat.add_zero, Nat.min_eq_right hoffset]
    simp only [if_true, Nat.sub_self, List.take_zero]
    exact ⟨fun _ => .done (Nat.le_refl offset), fun _ => ⟨0, s, _, rfl, rfl⟩⟩
  · simp only [if_neg (Nat.ne_of_gt hpos)]
    constructor
    · rintro ⟨fuel, service, result, hread, hbytes⟩
      obtain ⟨⟨s', e | pos⟩, hloop, hresult⟩ := Option.map_eq_some_iff.mp hread
      · simp [Except.map] at hresult
      · simp only [Except.map, Prod.mk.injEq, Except.ok.injEq] at hresult
        obtain ⟨-, rfl⟩ := hresult
        exact current_of_readLoop hshort staged.fits (Nat.min_le_left _ _) hloop (by simpa using hbytes)
    · intro hcurrent
      obtain ⟨s', pos', hloop, hbytes⟩ := readLoop_of_current hcurrent hshort staged.fits (Nat.min_le_left _ _)
        (show Progress.cursor { cursor := offset, prefetchedUntil := offset } = offset from rfl) (Nat.le_refl _)
      exact ⟨_, _, _, by rw [hloop]; rfl, by simpa using hbytes⟩

/-! ## What a read leaves in the cache -/

theorem fetchWindow_service (hmax : staged.length ≤ isizeMax) {cursor : Nat} {s' : ReadPathService} {window : Bytes}
    {source : ReadSource} (hfetch : s.fetchWindow staged path cursor = .ok (s', window, source)) :
    s' = s ∨ s' = s.afterMiss staged path cursor := by
  rcases hget : s.pages.get (s.windowCacheKey path cursor) with _ | cached
  · rcases Nat.lt_or_ge staged.length cursor with hpast | hcursor
    · simp [fetchWindow, hget, windowBounds, hpast, bind, Except.bind] at hfetch
    · simp only [fetchWindow_miss hmax hcursor hget, Except.ok.injEq, Prod.mk.injEq] at hfetch
      exact .inr hfetch.1.symm
  · simp only [fetchWindow_hit hget, Except.ok.injEq, Prod.mk.injEq] at hfetch
    exact .inl hfetch.1.symm

theorem readLoop_keeps {I : ReadPathService → Prop} (hmax : staged.length ≤ isizeMax)
    (hmiss : ∀ s cursor, I s → I (s.afterMiss staged path cursor)) {fuel : Nat}
    {result : ReadPathService × Except ReadPathError Progress} (hI : I s)
    (hloop : readLoop staged path targetLen fuel s pos = some result) : I result.1 := by
  induction fuel generalizing s pos with
  | zero =>
    unfold readLoop at hloop
    split_ifs at hloop
    cases hloop
    exact hI
  | succ fuel ih =>
    have hnext : I (s.readStep staged path targetLen pos).1 := by
      unfold readStep
      rcases hfetch : s.fetchWindow staged path pos.cursor with e | ⟨s', window, source⟩
      · exact hI
      · have hkept : I s' := by
          rcases fetchWindow_service hmax hfetch with rfl | rfl
          · exact hI
          · exact hmiss s pos.cursor hI
        simp only
        split_ifs
        · exact hkept
        · exact hkept
    unfold readLoop at hloop
    split_ifs at hloop
    · split at hloop
      · rename_i hstep
        cases hloop
        rwa [hstep] at hnext
      · rename_i hstep
        rw [hstep] at hnext
        exact ih hnext hloop
    · cases hloop
      exact hI

theorem readResult_keeps {I : ReadPathService → Prop}
    (hmiss : ∀ staged ∈ staging.get path, ∀ s cursor, I s → I (s.afterMiss staged.bytes path cursor)) (hI : I s)
    {result : ReadPathService × Except ReadPathError ReadResult}
    (hread : s.readResult staging path offset requestedBytes = some result) : I result.1 := by
  unfold readResult read at hread
  rcases hget : staging.get path with _ | staged
  · simp only [hget, Option.some.injEq] at hread
    exact hread ▸ hI
  · simp only [hget] at hread
    split_ifs at hread
    · cases hread
      exact hI
    · cases hread
      exact hI
    · obtain ⟨looped, hloop, rfl⟩ := Option.map_eq_some_iff.mp hread
      exact readLoop_keeps staged.fits (hmiss staged hget) hI hloop

/-! ## Content that stays -/

/-- The key tells the path and the start apart: the start has no colon. -/
theorem windowCacheKey_inj {path path' : String} {cursor cursor' : Nat}
    (h : s.windowCacheKey path cursor = s.windowCacheKey path' cursor') :
    path = path' ∧ s.windowStart cursor = s.windowStart cursor' := by
  have hcolon (n : Nat) : ':' ∉ (toString n).toList := by
    intro hmem
    have := Nat.isDigit_of_mem_toDigits (by decide) (by decide) (Nat.toList_repr ▸ hmem)
    exact absurd this (by decide)
  have hlist := congrArg String.toList h
  simp only [windowCacheKey, String.toList_append, List.append_assoc, List.append_cancel_left_eq] at hlist
  obtain ⟨hpath, hstart⟩ := Segments.append_sep_inj (hcolon _) (hcolon _) hlist
  exact ⟨String.toList_inj.mp hpath, eq_of_toList_toString hstart⟩

/-- Each cached window of a path is the one of its content. -/
def Fresh (content : String → Buffer) (s : ReadPathService) : Prop :=
  ∀ path cursor page, s.pages.get (s.windowCacheKey path cursor) = some page →
    page = s.stagedWindow (content path).bytes cursor

variable {content : String → Buffer}

theorem Fresh.afterMiss (h : s.Fresh content) (path : String) (cursor : Nat) :
    (s.afterMiss (content path).bytes path cursor).Fresh content := by
  intro path' cursor' page hpage
  rcases PageCache.get_put hpage with ⟨hkey, rfl⟩ | ⟨-, hold⟩
  · obtain ⟨rfl, hstart⟩ := s.windowCacheKey_inj hkey
    show s.stagedWindow _ _ = s.stagedWindow _ _
    rw [stagedWindow, stagedWindow, hstart]
  · exact h path' cursor' page hold

theorem Fresh.current (h : s.Fresh content) (htarget : targetLen ≤ (content path).bytes.length) (cursor : Nat) :
    Current (content path).bytes path targetLen s cursor := by
  induction hn : targetLen - cursor using Nat.strong_induction_on generalizing s cursor with
  | _ n ih =>
    rcases Nat.lt_or_ge cursor targetLen with hlt | hdone
    · have hnext := s.lt_nextCursor hlt
      have hbound : s.nextCursor targetLen cursor ≤ targetLen := Nat.min_le_left _ _
      rcases hget : s.pages.get (s.windowCacheKey path cursor) with _ | window
      · exact .miss hlt hget (ih _ (by omega) (h.afterMiss path cursor) _ rfl)
      · refine .hit hlt hget ?_ (ih _ (by omega) h _ rfl)
        rw [h path cursor window hget]
        exact s.stagedWindow_taken htarget cursor
    · exact .done hdone

end ReadPathService

/-! ## The shell -/

structure FilesystemShell where
  reads : ReadPathService := {}
  writeback : WritebackService := {}
  journal : WritebackJournal := {}

namespace FilesystemShell

inductive Call
  | seedStagedFile (path : String) (bytes : Buffer)
  | stageWrite (path : String) (bytes : Buffer)
  | flushWriteback (maxEntries : Nat)
  | readStagedPath (path : String) (offset requestedBytes : Nat)
  | setMaxBytes (maxBytes : Nat)

variable (shell : FilesystemShell)

/-- A call on the shell. A read that does not end leaves no shell to call. -/
def call : Call → Option FilesystemShell
  | .seedStagedFile path bytes =>
    some { shell with writeback := { shell.writeback with staging := shell.writeback.staging.stage path bytes } }
  | .stageWrite path bytes =>
    let (_, writeback, journal) := shell.writeback.stageWrite shell.journal path bytes
    some { shell with writeback, journal }
  | .flushWriteback maxEntries =>
    let (_, writeback, journal) := shell.writeback.flush shell.journal maxEntries
    some { shell with writeback, journal }
  | .readStagedPath path offset requestedBytes =>
    (shell.reads.readResult shell.writeback.staging path offset requestedBytes).map
      fun (reads, _) => { shell with reads }
  | .setMaxBytes maxBytes =>
    some { shell with reads := { shell.reads with pages := shell.reads.pages.setMaxBytes maxBytes } }

def step (shell : Option FilesystemShell) (c : Call) : Option FilesystemShell := shell.bind (call · c)

def new (prefetchWindowBytes maxBytes maxOpenFiles maxPendingOperations : Nat) : FilesystemShell where
  reads := { prefetchWindowBytes, pages := { maxBytes } }
  writeback := { staging := { maxOpenFiles } }
  journal := { maxPendingOperations }

/-- A read within the staged bytes ends, and gives them. -/
def ReadsRight (shell : Option FilesystemShell) : Call → Prop
  | .readStagedPath path offset requestedBytes => ∀ fs ∈ shell, ∀ staged ∈ fs.writeback.staging.get path,
    offset ≤ staged.bytes.length →
      fs.reads.ReadsStaged fs.writeback.staging path offset requestedBytes staged
  | _ => True

/-- The windows that a read finds in the cache have the bytes that are staged now. -/
def FindsCurrent (shell : Option FilesystemShell) : Call → Prop
  | .readStagedPath path offset requestedBytes => ∀ fs ∈ shell, ∀ staged ∈ fs.writeback.staging.get path,
    offset ≤ staged.bytes.length →
      fs.reads.Current staged.bytes path (min staged.bytes.length (offset + requestedBytes)) offset
  | _ => True

variable {shell}

theorem short_call {c : Call} (hshort : shell.reads.Short) : ∀ fs ∈ shell.call c, fs.reads.Short := by
  rintro fs hfs
  rcases c with ⟨path, bytes⟩ | ⟨path, bytes⟩ | maxEntries | ⟨path, offset, requestedBytes⟩ | maxBytes
  · cases hfs
    exact hshort
  · cases hfs
    exact hshort
  · cases hfs
    exact hshort
  · obtain ⟨result, hread, rfl⟩ := Option.map_eq_some_iff.mp hfs
    exact ReadPathService.readResult_keeps (fun staged _ _ cursor h => h.afterMiss staged.bytes path cursor) hshort
      hread
  · cases hfs
    intro key page hpage
    exact hshort key page (PageCache.mem_setMaxBytes hpage)

theorem short_step {s : Option FilesystemShell} {c : Call} (hshort : ∀ fs ∈ s, fs.reads.Short) :
    ∀ fs ∈ step s c, fs.reads.Short := by
  intro fs hfs
  obtain ⟨before, hbefore, hcall⟩ := Option.bind_eq_some_iff.mp hfs
  exact short_call (hshort before hbefore) fs hcall

theorem readsRight_step_iff {s : Option FilesystemShell} (hshort : ∀ fs ∈ s, fs.reads.Short) (c : Call) :
    ReadsRight s c ↔ FindsCurrent s c := by
  rcases c with _ | _ | _ | ⟨path, offset, requestedBytes⟩ | _
  · exact Iff.rfl
  · exact Iff.rfl
  · exact Iff.rfl
  · refine forall₂_congr fun fs hfs => forall₂_congr fun staged hget => forall_congr' fun hoffset => ?_
    exact ReadPathService.readsStaged_iff (hshort fs hfs) hget hoffset
  · exact Iff.rfl

/-- The reads of a run are right exactly where the windows they find in the cache are current. -/
theorem readsRight_iff (prefetchWindowBytes maxBytes maxOpenFiles maxPendingOperations : Nat) (calls : List Call) :
    AllSteps step ReadsRight (some (new prefetchWindowBytes maxBytes maxOpenFiles maxPendingOperations)) calls ↔
      AllSteps step FindsCurrent (some (new prefetchWindowBytes maxBytes maxOpenFiles maxPendingOperations)) calls := by
  apply allSteps_congr (I := fun s => ∀ fs ∈ s, fs.reads.Short)
  · intro fs hfs key page hpage
    cases hfs
    cases hpage
  · intro s c hshort
    exact readsRight_step_iff hshort c
  · intro s c hshort _
    exact short_step hshort

/-- A file of one byte is read and then staged with two: the next read finds the window of one byte, and never ends. -/
theorem not_readsRight :
    ¬ AllSteps step ReadsRight (some (new (256 * 1024) (256 * 1024 * 1024) 64 4096))
      [.seedStagedFile "docs/report.txt" ⟨[1], by decide⟩, .readStagedPath "docs/report.txt" 0 1,
        .seedStagedFile "docs/report.txt" ⟨[1, 2], by decide⟩, .readStagedPath "docs/report.txt" 0 2] := by
  rintro ⟨-, -, -, h, -⟩
  set s := step _ _ with hs
  have hstaged : (s.bind fun fs => fs.writeback.staging.get "docs/report.txt") = some ⟨[1, 2], by decide⟩ := by
    decide +kernel
  have hstuck : (s.bind fun fs => fs.reads.readResult fs.writeback.staging "docs/report.txt" 0 2).isNone := by
    decide +kernel
  obtain ⟨fs, hfs, hget⟩ := Option.bind_eq_some_iff.mp hstaged
  obtain ⟨fuel, service, result, hread, -⟩ := h fs hfs _ hget (Nat.zero_le _)
  rw [hfs, Option.bind_some, ReadPathService.readResult_eq_some.mpr ⟨fuel, hread⟩] at hstuck
  cases hstuck

/-! ### Content that stays -/

/-- What is staged under a path is its content. -/
def StagesContent (content : String → Buffer) : Call → Prop
  | .seedStagedFile path bytes | .stageWrite path bytes => bytes = content path
  | _ => True

structure Serves (content : String → Buffer) (fs : FilesystemShell) : Prop where
  staged : ∀ path staged, fs.writeback.staging.get path = some staged → staged = content path
  fresh : fs.reads.Fresh content

theorem Serves.call {content : String → Buffer} (h : shell.Serves content) {c : Call} (hc : StagesContent content c) :
    ∀ fs ∈ shell.call c, fs.Serves content := by
  intro fs hfs
  rcases c with ⟨path, bytes⟩ | ⟨path, bytes⟩ | maxEntries | ⟨path, offset, requestedBytes⟩ | maxBytes
  · cases hfs
    refine ⟨fun other staged hget => ?_, h.fresh⟩
    rcases StagingCache.get_stage hget with ⟨rfl, rfl⟩ | hold
    · exact hc
    · exact h.staged other staged hold
  · cases hfs
    refine ⟨fun other staged hget => ?_, h.fresh⟩
    rcases WritebackService.get_stageWrite hget with ⟨rfl, rfl⟩ | hold
    · exact hc
    · exact h.staged other staged hold
  · cases hfs
    refine ⟨fun path staged hget => ?_, h.fresh⟩
    exact h.staged path staged (StagingCache.of_get_unstageAll hget)
  · obtain ⟨result, hread, rfl⟩ := Option.map_eq_some_iff.mp hfs
    refine ⟨h.staged, ReadPathService.readResult_keeps (fun staged hget s cursor hfresh => ?_) h.fresh hread⟩
    rw [h.staged path staged hget]
    exact hfresh.afterMiss path cursor
  · cases hfs
    refine ⟨h.staged, fun path cursor page hpage => ?_⟩
    exact h.fresh path cursor page (PageCache.mem_setMaxBytes hpage)

/-- Where a path is only ever staged with the same content, every read is right: neither evictions
nor flushes nor the limits matter. -/
theorem readsRight_of_content (content : String → Buffer)
    (prefetchWindowBytes maxBytes maxOpenFiles maxPendingOperations : Nat) {calls : List Call}
    (hcalls : ∀ c ∈ calls, StagesContent content c) :
    AllSteps step ReadsRight (some (new prefetchWindowBytes maxBytes maxOpenFiles maxPendingOperations)) calls := by
  apply allSteps_of_invariant (I := fun s => ∀ fs ∈ s, fs.reads.Short ∧ fs.Serves content) hcalls
  · intro fs hfs
    cases hfs
    refine ⟨fun key page hpage => ?_, fun path staged hget => ?_, fun path cursor page hpage => ?_⟩
    · cases hpage
    · cases hget
    · cases hpage
  · intro s c hc hI
    constructor
    · rw [readsRight_step_iff (fun fs hfs => (hI fs hfs).1) c]
      rcases c with _ | _ | _ | ⟨path, offset, requestedBytes⟩ | _
      · trivial
      · trivial
      · trivial
      · intro fs hfs staged hget _
        rw [(hI fs hfs).2.staged path staged hget]
        exact (hI fs hfs).2.fresh.current (Nat.min_le_left _ _) offset
      · trivial
    · intro fs hfs
      obtain ⟨before, hbefore, hcall⟩ := Option.bind_eq_some_iff.mp hfs
      exact ⟨short_call (hI before hbefore).1 fs hcall, (hI before hbefore).2.call hc fs hcall⟩

end FilesystemShell

end Pcloud
