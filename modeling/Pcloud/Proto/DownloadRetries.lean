import Pcloud.Proto.ResumableDownload

/-!
# Resumable downloads called again and again

Each call takes up the `.part` file that the one before it left. With a server that serves the file, what
a call leaves is decided by whether its ranged request can be satisfied.
-/

namespace Pcloud

section

variable (parseRetryAfter : String → Option Nat) (sha256 : Bytes → Bytes) (servers : Servers)
variable (config : HttpDownloadConfig) (download : SignedDownload) (file : Bytes)

/-- The server serves `file`, which is within the limits of the client: whole, from any byte of it on, and with
a refusal of a range that starts past the end. -/
structure Serves : Prop where
  full (n : Nat) : (servers n download.host (portOf download config)
    (buildRequest { download with range := none })).Delivers parseRetryAfter config file
  tail (n offset : Nat) : 0 < offset → offset < file.length →
    let answer := servers n download.host (portOf download config) (rangeRequest download offset)
    answer.Faultless ∧ ∃ headers, Message parseRetryAfter config answer.carried headers (file.drop offset) ∧
      headers.status = 206
  pastEnd (n offset : Nat) : 0 < offset → file.length ≤ offset →
    let answer := servers n download.host (portOf download config) (rangeRequest download offset)
    answer.Faultless ∧ ∃ headers payload,
      Head parseRetryAfter config.maxHeaderBytes answer.carried headers payload ∧ headers.status = 416

/-- A call for the file, by its digest. -/
def callFor (s : Downloads) : Except HttpDownloadError ResumableOutcome × Downloads :=
  fetchDownloadResumable parseRetryAfter sha256 servers config download (sha256 file) s

/-- The files after `n` calls. -/
def afterCalls (s : Downloads) : Nat → Downloads
  | 0 => s
  | n + 1 => (callFor parseRetryAfter sha256 servers config download file (afterCalls s n)).2

/-- The result of the call after those. -/
def resultOfCall (s : Downloads) (n : Nat) : Except HttpDownloadError ResumableOutcome :=
  (callFor parseRetryAfter sha256 servers config download file
    (afterCalls parseRetryAfter sha256 servers config download file s n)).1

/-- Some call ends well, and no failed call leaves a `.part` file with which all later ones fail as it did. -/
def Unstuck (s : Downloads) : Prop :=
  (∃ n r, resultOfCall parseRetryAfter sha256 servers config download file s n = .ok r) ∧
  ∀ n e, resultOfCall parseRetryAfter sha256 servers config download file s n = .error e →
    (afterCalls parseRetryAfter sha256 servers config download file s (n + 1)).part ≠ none →
    ∃ m, n < m ∧ resultOfCall parseRetryAfter sha256 servers config download file s m ≠ .error e

end

section

variable {parseRetryAfter : String → Option Nat} {servers : Servers} {config : HttpDownloadConfig}
variable {download : SignedDownload} {file part : Bytes} {s : Downloads} (sha256 : Bytes → Bytes)

/-! ## One call -/

theorem Serves.fullDownload (h : Serves parseRetryAfter servers config download file) (s : Downloads) :
    ∃ r, (fullDownload parseRetryAfter sha256 servers config download (sha256 file) s).1 = .ok r ∧
      (fullDownload parseRetryAfter sha256 servers config download (sha256 file) s).2.part = none := by
  obtain ⟨bytes, ⟨houtcome, -⟩ | ⟨e, hdigest, -⟩⟩ :=
    fullDownloadToPart_cases parseRetryAfter sha256 servers config download (sha256 file) s
  · unfold Pcloud.fullDownload fullDownloadAfterWait
    rw [houtcome]
    exact ⟨_, rfl, rfl⟩
  · exact absurd rfl (hdigest file (h.full s.requests))

theorem Serves.callFor_of_fresh (h : Serves parseRetryAfter servers config download file)
    (hpart : ∀ part, s.part = some part → part = []) :
    ∃ r, (callFor parseRetryAfter sha256 servers config download file s).1 = .ok r ∧
      (callFor parseRetryAfter sha256 servers config download file s).2.part = none := by
  unfold callFor fetchDownloadResumable
  rcases hs : s.part with _ | part
  · exact h.fullDownload sha256 s
  · dsimp only
    rw [if_pos (by rw [hpart part hs, List.length_nil])]
    exact h.fullDownload sha256 s

theorem Serves.callFor_of_shorter (h : Serves parseRetryAfter servers config download file) (hs : s.part = some part)
    (hpos : 0 < part.length) (hshorter : part.length < file.length) :
    (callFor parseRetryAfter sha256 servers config download file s).2.part = none := by
  obtain ⟨hfaultless, headers, ⟨payload, hhead, hframed⟩, hstatus⟩ := h.tail s.requests part.length hpos hshorter
  unfold callFor fetchDownloadResumable
  rw [hs]
  dsimp only
  rw [if_neg (by omega)]
  obtain ⟨bytes, ⟨headers', payload', -, -, -, ⟨r, houtcome, -⟩ | ⟨e, houtcome, -, hmismatch⟩⟩ |
      ⟨r, -, -, hfails⟩⟩ :=
    tryResume_cases parseRetryAfter sha256 servers config download (sha256 file) part s
  · rw [houtcome]
  · rw [houtcome]
    rcases e
    case integrityMismatch => rfl
    all_goals cases hmismatch
  · have hfits := (h.full 0).fits
    refine absurd ⟨file.drop part.length, hframed, ?_⟩ ((hfails hfaultless headers payload hhead).2 hstatus)
    rw [List.length_drop]
    omega

theorem Serves.callFor_of_longer (h : Serves parseRetryAfter servers config download file) (hs : s.part = some part)
    (hpos : 0 < part.length) (hlonger : file.length ≤ part.length) :
    (callFor parseRetryAfter sha256 servers config download file s).1 = .error (.httpStatus 416) ∧
      ∃ part', (callFor parseRetryAfter sha256 servers config download file s).2.part = some part' ∧
        part.length ≤ part'.length := by
  obtain ⟨hfaultless, headers, payload, hhead, hstatus⟩ := h.pastEnd s.requests part.length hpos hlonger
  unfold callFor fetchDownloadResumable
  rw [hs]
  dsimp only
  rw [if_neg (by omega)]
  obtain ⟨bytes, ⟨headers', payload', hhead', hranged, -⟩ | ⟨r, houtcome, -, hfails⟩⟩ :=
    tryResume_cases parseRetryAfter sha256 servers config download (sha256 file) part s
  · obtain ⟨rfl, -⟩ := hhead.unique hhead'
    omega
  · have hr := (hfails hfaultless headers payload hhead).1 (by omega)
    rw [hstatus] at hr
    subst hr
    rw [houtcome]
    exact ⟨rfl, part ++ bytes, rfl, by simp⟩

/-! ## Runs of calls -/

theorem Serves.settled (h : Serves parseRetryAfter servers config download file)
    (hnone : (callFor parseRetryAfter sha256 servers config download file s).2.part = none) (n : Nat) :
    (∃ r, resultOfCall parseRetryAfter sha256 servers config download file s (n + 1) = .ok r) ∧
      (afterCalls parseRetryAfter sha256 servers config download file s (n + 1)).part = none := by
  have hfresh : ∀ s : Downloads, s.part = none → ∀ part, s.part = some part → part = [] := by
    intro s hs part hpart
    rw [hs] at hpart
    cases hpart
  induction n with
  | zero => exact ⟨(h.callFor_of_fresh sha256 (hfresh _ hnone)).imp fun _ hr => hr.1, hnone⟩
  | succ n ih =>
    obtain ⟨r, -, hafter⟩ := h.callFor_of_fresh sha256 (hfresh _ ih.2)
    exact ⟨(h.callFor_of_fresh sha256 (hfresh _ hafter)).imp fun _ hr => hr.1, hafter⟩

/-- A `.part` file as long as the file stays one, and every call is refused. -/
theorem Serves.stuck (h : Serves parseRetryAfter servers config download file) (hs : s.part = some part)
    (hpos : 0 < part.length) (hlonger : file.length ≤ part.length) (n : Nat) :
    resultOfCall parseRetryAfter sha256 servers config download file s n = .error (.httpStatus 416) ∧
      ∃ part', (afterCalls parseRetryAfter sha256 servers config download file s n).part = some part' ∧
        part.length ≤ part'.length := by
  induction n with
  | zero => exact ⟨(h.callFor_of_longer sha256 hs hpos hlonger).1, part, hs, le_rfl⟩
  | succ n ih =>
    obtain ⟨-, part', hpart', hle⟩ := ih
    obtain ⟨-, part'', hpart'', hle'⟩ := h.callFor_of_longer sha256 hpart' (by omega) (by omega)
    exact ⟨(h.callFor_of_longer sha256 hpart'' (by omega) (by omega)).1, part'', hpart'', by omega⟩

end

variable (parseRetryAfter : String → Option Nat) (sha256 : Bytes → Bytes) (servers : Servers)
variable (config : HttpDownloadConfig) (download : SignedDownload) (file : Bytes)

/-- Calls get unstuck just if there is no `.part` file, or one that is empty or shorter than the file. -/
theorem unstuck_iff_shorter (h : Serves parseRetryAfter servers config download file) (s : Downloads) :
    Unstuck parseRetryAfter sha256 servers config download file s ↔
      ∀ part, s.part = some part → part = [] ∨ part.length < file.length := by
  constructor
  · rintro ⟨⟨n, r, hr⟩, -⟩ part hs
    by_contra hnot
    push Not at hnot
    have hstuck := h.stuck sha256 hs (List.length_pos_iff.mpr hnot.1) hnot.2 n
    rw [hstuck.1] at hr
    cases hr
  · intro hshort
    have hnone : (callFor parseRetryAfter sha256 servers config download file s).2.part = none := by
      by_cases hfresh : ∀ part, s.part = some part → part = []
      · obtain ⟨r, -, hafter⟩ := h.callFor_of_fresh sha256 hfresh
        exact hafter
      · push Not at hfresh
        obtain ⟨part, hs, hmore⟩ := hfresh
        exact h.callFor_of_shorter sha256 hs (List.length_pos_iff.mpr hmore) ((hshort part hs).resolve_left hmore)
    refine ⟨⟨1, (h.settled sha256 hnone 0).1⟩, fun n e _ _ => ⟨n + 1, Nat.lt_succ_self n, ?_⟩⟩
    obtain ⟨r, hr⟩ := (h.settled sha256 hnone n).1
    rw [hr]
    exact fun heq => by cases heq

/-! ## A file of two bytes, and a `.part` file with both of them -/

def letter : SignedDownload where
  host := "c1.pcloud.com"
  port := none
  path := "/letter"
  dwltag := none

def letterHead : Bytes := utf8 "HTTP/1.1 200 OK\r\nContent-Length: 2\r\n\r\n"

def restHead : Bytes := utf8 "HTTP/1.1 206 Partial Content\r\nContent-Length: 1\r\n\r\n"

def refusedHead : Bytes := utf8 "HTTP/1.1 416 Range Not Satisfiable\r\nContent-Length: 0\r\n\r\n"

def letterServers : Servers := fun _ _ _ request =>
  if request = buildRequest letter then .sent [letterHead, utf8 "ab"] false none
  else if request = rangeRequest letter 1 then .sent [restHead, utf8 "b"] false none
  else .sent [refusedHead] false none

/-- The SHA-256 digest of the letter, whatever is asked for. -/
def letterDigest : Bytes → Bytes := fun _ =>
  [251, 142, 32, 252, 46, 76, 63, 36, 140, 96, 195, 155, 214, 82, 243, 193, 52, 114,
    152, 187, 151, 123, 139, 77, 89, 3, 184, 80, 85, 98, 6, 3]

theorem rangeRequest_ne_buildRequest (offset : Nat) : rangeRequest letter offset ≠ buildRequest letter := by
  -- Already what comes before the offset is longer than the other request.
  intro heq
  have hlength := congrArg String.length heq
  have hshorter : (buildRequest letter).length < ("GET " ++ letter.path ++ " HTTP/1.1\r\nHost: " ++ letter.host ++
    "\r\nConnection: close\r\nRange: bytes=").length := by decide
  unfold rangeRequest at hlength
  simp only [String.length_append] at hlength hshorter
  omega

theorem rangeRequest_inj {m n : Nat} (h : rangeRequest letter m = rangeRequest letter n) : m = n := by
  unfold rangeRequest at h
  simp only [← String.toList_inj, String.toList_append, List.append_cancel_right_eq, List.append_cancel_left_eq,
    Nat.toString_eq_repr, Nat.toList_repr] at h
  rw [← @Nat.ofDigitChars_ten_toDigits m, h, Nat.ofDigitChars_ten_toDigits]

theorem letter_served : Serves (fun _ => none) letterServers {} letter (utf8 "ab") := by
  refine ⟨fun n => ?_, fun n offset hpos hlt => ?_, fun n offset _ hlonger => ?_⟩
  · refine ⟨⟨rfl, rfl⟩, ⟨{ contentLength := some 2, status := 200, retryAfter := none }, ?_, rfl, rfl⟩, by decide⟩
    refine ⟨utf8 "ab", ⟨letterHead, rfl, by decide +kernel, by decide, rfl⟩, ?_⟩
    exact ⟨List.prefix_refl _, rfl⟩
  · have htwo : (utf8 "ab").length = 2 := rfl
    obtain rfl : offset = 1 := by omega
    have hanswer : letterServers n letter.host (portOf letter {}) (rangeRequest letter 1) =
        .sent [restHead, utf8 "b"] false none := by
      unfold letterServers
      rw [if_neg (rangeRequest_ne_buildRequest 1), if_pos rfl]
    dsimp only
    rw [hanswer]
    refine ⟨⟨rfl, rfl⟩, { contentLength := some 1, status := 206, retryAfter := none }, ?_, rfl⟩
    refine ⟨utf8 "b", ⟨restHead, rfl, by decide +kernel, by decide, rfl⟩, ?_⟩
    exact ⟨List.prefix_refl _, rfl⟩
  · have htwo : (utf8 "ab").length = 2 := rfl
    have hother : rangeRequest letter offset ≠ rangeRequest letter 1 := fun heq => by
      have hone := rangeRequest_inj heq
      omega
    have hanswer : letterServers n letter.host (portOf letter {}) (rangeRequest letter offset) =
        .sent [refusedHead] false none := by
      unfold letterServers
      rw [if_neg (rangeRequest_ne_buildRequest offset), if_neg hother]
    dsimp only
    rw [hanswer]
    refine ⟨⟨rfl, rfl⟩, { contentLength := some 0, status := 416, retryAfter := none }, [], ?_, rfl⟩
    exact ⟨refusedHead, rfl, by decide +kernel, by decide, rfl⟩

/-- The `.part` file holds the whole file, and its range is refused at every call. -/
theorem stuck_with_whole_file :
    Serves (fun _ => none) letterServers {} letter (utf8 "ab") ∧
      ¬ Unstuck (fun _ => none) letterDigest letterServers {} letter (utf8 "ab")
        { part := some (utf8 "ab"), dest := none } := by
  refine ⟨letter_served, ?_⟩
  rintro ⟨⟨n, r, hr⟩, -⟩
  have hpos : 0 < (utf8 "ab").length := Nat.two_pos
  obtain ⟨hstuck, -⟩ := letter_served.stuck letterDigest (s := ⟨some (utf8 "ab"), none, 0⟩) rfl hpos
    le_rfl n
  rw [hr] at hstuck
  cases hstuck

theorem letter_unstuck : Unstuck (fun _ => none) letterDigest letterServers {} letter (utf8 "ab")
    { part := some (utf8 "a"), dest := none } := by
  refine (unstuck_iff_shorter _ letterDigest _ _ _ _ letter_served _).mpr ?_
  rintro part ⟨⟩
  exact .inr (Nat.lt_succ_self 1)

end Pcloud
