import Mathlib.Data.List.TakeWhile
import Pcloud.Engine.Normalize
import Pcloud.Lib.Lines
import Pcloud.Lib.Runs
import Pcloud.Model.Bytes

/-!
# The journal of uploads (`pcloud-backends/src/upload_journal.rs`)

One line of JSON for each entry. A line is appended where the file ends, whatever a crash has left there.
`serde_json` is a parameter.
-/

namespace Pcloud.UploadJournal

/-- The counters are `u64`. -/
structure JournalEntry where
  uploadId : Nat
  chunksDone : Nat
  bytes : Nat
  shaPartial : Option String
deriving DecidableEq, Repr

inductive JournalError
  | Io
  | Parse
deriving DecidableEq, Repr

structure ReplayReport where
  entries : List JournalEntry := []
  rejectedLines : Nat := 0
deriving DecidableEq, Repr

/-- `serde_json::to_string` and `serde_json::from_str` of an entry. -/
structure EntryCodec where
  toJson : JournalEntry → String
  fromJson : String → Option JournalEntry

def newline : UInt8 := 10

def carriageReturn : UInt8 := 13

def closingBrace : UInt8 := 125

namespace EntryCodec

variable (codec : EntryCodec) (entry : JournalEntry)

/-- An entry is written as an object on one line, and read back as it was. -/
structure Keeps : Prop where
  back : codec.fromJson (codec.toJson entry) = some entry
  opens : '{' ∈ (codec.toJson entry).toList
  closes : (utf8 (codec.toJson entry)).getLast? = some closingBrace
  oneLine : newline ∉ utf8 (codec.toJson entry)

/-! ## Replay -/

/-- The `\r` that `BufRead::lines` takes off with the newline. -/
def chomp (line : Bytes) : Bytes := if line.getLast? = some carriageReturn then line.dropLast else line

/-- `BufRead::lines`, collected: the error is that of a line that is no text. -/
def bufLines (file : Bytes) : Except JournalError (List String) :=
  let (ended, rest) := Lines.split newline file
  match (ended.map chomp ++ if rest = [] then [] else [rest]).mapM fromUtf8 with
  | some lines => .ok lines
  | none => .error .Io

/-- One turn of the loop of `replay`. -/
def replayLine (trailingNewline : Bool) (total : Nat) (report : ReplayReport) (indexed : String × Nat) :
    ReplayReport :=
  let (line, idx) := indexed
  let isLast := idx + 1 = total
  if isLast ∧ !trailingNewline then { report with rejectedLines := report.rejectedLines + 1 }
  else if trim line.toList = [] then report
  else
    match codec.fromJson line with
    | some entry => { report with entries := report.entries ++ [entry] }
    | none => { report with rejectedLines := report.rejectedLines + 1 }

/-- A file that is not there is read as an empty one. -/
def replay (file : Bytes) : Except JournalError ReplayReport :=
  if file = [] then .ok {}
  else
    let trailingNewline := file.getLast? = some newline
    match bufLines file with
    | .ok lines => .ok (lines.zipIdx.foldl (codec.replayLine trailingNewline lines.length) {})
    | .error e => .error e

/-- What `append` writes. -/
def line : Bytes := utf8 (codec.toJson entry) ++ [newline]

/-- The file after `rewrite_atomic`. -/
def rewriteAtomic (entries : List JournalEntry) : Bytes := entries.flatMap codec.line

end EntryCodec

/-! ## Runs -/

inductive Call
  /-- An append stops with an error, or with the process, after so many bytes of its line. -/
  | append (entry : JournalEntry) (stopped : Option Nat)
  | open
deriving DecidableEq, Repr

def Call.entry : Call → Option JournalEntry
  | .append entry _ => some entry
  | .open => none

/-- The file, and for the record the entries whose append returned `Ok`. -/
structure Journal where
  file : Bytes := []
  acked : List JournalEntry := []
deriving DecidableEq

namespace Journal

variable (codec : EntryCodec)

def step (s : Journal) : Call → Journal
  | .append entry none => { s with file := s.file ++ codec.line entry, acked := s.acked ++ [entry] }
  | .append entry (some written) => { s with file := s.file ++ (codec.line entry).take written }
  | .open => s

/-- Replay returns what was acknowledged, in order. -/
def Durable (s : Journal) : Prop :=
  ∃ report, codec.replay s.file = .ok report ∧ s.acked.Sublist report.entries

/-- An append that returns `Ok` finds no torn line, and none stops inside a character. -/
def Sound (s : Journal) : Call → Prop
  | .append _ none => s.file = [] ∨ s.file.getLast? = some newline
  | .append entry (some written) => fromUtf8 ((codec.line entry).take written) ≠ none
  | .open => True

end Journal

/-! ## What replay reads -/

section

variable {codec : EntryCodec} {entry : JournalEntry} {file part : Bytes}

theorem trim_ne_nil {text : List Char} {c : Char} (hc : isWhiteSpace c = false) (hmem : c ∈ text) : trim text ≠ [] := by
  intro hnil
  unfold trim at hnil
  rw [List.reverse_eq_nil_iff, List.dropWhile_eq_nil_iff] at hnil
  have hleft : c ∈ text.dropWhile isWhiteSpace := by
    have hsplit := List.takeWhile_append_dropWhile (p := isWhiteSpace) (l := text)
    rw [← hsplit, List.mem_append] at hmem
    rcases hmem with hblank | hrest
    · have := List.mem_takeWhile_imp hblank
      rw [hc] at this
      cases this
    · exact hrest
  have := hnil c (List.mem_reverse.mpr hleft)
  rw [hc] at this
  cases this

namespace EntryCodec

/-- What the loop makes of a line that is not torn. -/
def entryOf (codec : EntryCodec) (line : String) : Option JournalEntry :=
  if trim line.toList = [] then none else codec.fromJson line

theorem replayLine_entries (codec : EntryCodec) (trailingNewline : Bool) (total : Nat) (report : ReplayReport)
    (line : String) (idx : Nat)
    (hwhole : idx + 1 = total → trailingNewline) :
    (codec.replayLine trailingNewline total report (line, idx)).entries =
      report.entries ++ (codec.entryOf line).toList := by
  unfold replayLine entryOf
  dsimp only
  rw [if_neg (by simpa using hwhole)]
  split
  · simp
  · cases codec.fromJson line with
    | none => simp
    | some entry => simp

theorem foldl_replayLine_entries (trailingNewline : Bool) (total : Nat) (report : ReplayReport) (lines : List String)
    (start : Nat) (htotal : start + lines.length ≤ total) (hwhole : start + lines.length = total → trailingNewline) :
    ((lines.zipIdx start).foldl (codec.replayLine trailingNewline total) report).entries =
      report.entries ++ lines.filterMap codec.entryOf := by
  induction lines generalizing start report with
  | nil => simp
  | cons line lines ih =>
    rw [List.length_cons] at htotal hwhole
    have hline := codec.replayLine_entries trailingNewline total report line start fun h => hwhole (by omega)
    rw [List.zipIdx_cons, List.foldl_cons, ih _ (start + 1) (by omega) fun h => hwhole (by omega), hline,
      List.append_assoc]
    cases hentry : codec.entryOf line <;> simp [hentry]

theorem mapM_fromUtf8 (texts : List String) : (texts.map utf8).mapM fromUtf8 = some texts := by
  induction texts with
  | nil => rfl
  | cons text texts ih => simp [ih]

theorem replayLine_torn (report : ReplayReport) (line : String) (idx : Nat) :
    codec.replayLine false (idx + 1) report (line, idx) =
      { report with rejectedLines := report.rejectedLines + 1 } := by
  simp [replayLine]

theorem replay_entries {ended : List Bytes} {rest : Bytes} {texts : List String} {text : String}
    (hsplit : Lines.split newline file = (ended, rest)) (hended : ended.map chomp = texts.map utf8)
    (hrest : rest = utf8 text) :
    ∃ report, codec.replay file = .ok report ∧ report.entries = texts.filterMap codec.entryOf := by
  unfold replay
  by_cases hfile : file = []
  · subst hfile
    obtain ⟨rfl, rfl⟩ : ended = [] ∧ rest = [] := by simpa [eq_comm] using hsplit
    obtain rfl : texts = [] := by simpa [eq_comm] using hended
    exact ⟨{}, if_pos rfl, rfl⟩
  · rw [if_neg hfile]
    have hnewline : rest = [] ↔ file.getLast? = some newline := by
      have hsnd : (Lines.split newline file).2 = [] ↔ _ := Lines.split_snd_eq_nil
      rwa [hsplit, or_iff_right hfile] at hsnd
    unfold bufLines
    rw [hsplit]
    dsimp only
    by_cases hnil : rest = []
    · rw [if_pos hnil, List.append_nil, hended, mapM_fromUtf8]
      refine ⟨_, rfl, ?_⟩
      rw [foldl_replayLine_entries _ _ _ _ 0 (by omega) fun _ => by simpa using hnewline.mp hnil]
      rfl
    · have hlines : texts.map utf8 ++ [rest] = (texts ++ [text]).map utf8 := by simp [hrest]
      have htorn : decide (file.getLast? = some newline) = false := by simpa [hnewline] using hnil
      rw [if_neg hnil, hended, hlines, mapM_fromUtf8]
      refine ⟨_, rfl, ?_⟩
      rw [List.zipIdx_append, List.foldl_append, htorn, List.length_append, List.length_singleton,
        List.zipIdx_singleton, List.foldl_cons, List.foldl_nil, Nat.zero_add, replayLine_torn]
      dsimp only
      rw [foldl_replayLine_entries _ _ _ _ 0 (by omega) fun h => by omega]
      rfl

/-! ## What the appends keep -/

theorem split_rewriteAtomic {entries : List JournalEntry} (hkeeps : ∀ entry ∈ entries, codec.Keeps entry) :
    Lines.split newline (codec.rewriteAtomic entries) = ((entries.map codec.toJson).map utf8, []) := by
  induction entries using List.reverseRec with
  | nil => rfl
  | append_singleton entries entry ih =>
    have hentry := hkeeps entry (by simp)
    have hentries := ih fun entry hmem => hkeeps entry (List.mem_append_left _ hmem)
    have hfile : codec.rewriteAtomic (entries ++ [entry]) = codec.rewriteAtomic entries ++ codec.line entry := by
      simp [rewriteAtomic]
    rw [hfile, line, Lines.split_append_line hentry.oneLine, hentries]
    simp

theorem Keeps.entryOf_toJson (h : codec.Keeps entry) : codec.entryOf (codec.toJson entry) = some entry := by
  unfold entryOf
  rw [if_neg (trim_ne_nil (by decide) h.opens), h.back]

theorem Keeps.chomp_toJson (h : codec.Keeps entry) : chomp (utf8 (codec.toJson entry)) = utf8 (codec.toJson entry) := by
  refine if_neg ?_
  rw [h.closes]
  decide

theorem replay_rewriteAtomic {entries : List JournalEntry} (hkeeps : ∀ entry ∈ entries, codec.Keeps entry) :
    ∃ report, codec.replay (codec.rewriteAtomic entries) = .ok report ∧ report.entries = entries := by
  have hchomp : ((entries.map codec.toJson).map utf8).map chomp = (entries.map codec.toJson).map utf8 := by
    simp only [List.map_map]
    exact List.map_congr_left fun entry hmem => (hkeeps entry hmem).chomp_toJson
  obtain ⟨report, hreport, hentries⟩ := replay_entries (split_rewriteAtomic hkeeps) hchomp (show [] = utf8 "" from rfl)
  refine ⟨report, hreport, hentries.trans ?_⟩
  rw [List.filterMap_map]
  calc entries.filterMap (codec.entryOf ∘ codec.toJson)
      = entries.filterMap some := List.filterMap_congr fun entry hmem => (hkeeps entry hmem).entryOf_toJson
    _ = entries := List.filterMap_some

theorem Keeps.newline_notMem_take (h : codec.Keeps entry) {written : Nat}
    (hpart : (codec.line entry).take written ≠ codec.line entry) : newline ∉ (codec.line entry).take written := by
  intro hmem
  have hshort : written ≤ (utf8 (codec.toJson entry)).length := by
    by_contra hlong
    refine hpart (List.take_of_length_le ?_)
    rw [line, List.length_append, List.length_singleton]
    omega
  rw [line, List.take_append_of_le_length hshort] at hmem
  exact h.oneLine (List.mem_of_mem_take hmem)

end EntryCodec

namespace Journal

open EntryCodec

/-- All that is in the file is text, no line ends in `\r`, and what was acknowledged stands in the ended lines. -/
def Holds (codec : EntryCodec) (s : Journal) : Prop :=
  ∃ (texts : List String) (rest : String),
    Lines.split newline s.file = (texts.map utf8, utf8 rest) ∧
    (∀ line ∈ texts, (utf8 line).getLast? ≠ some carriageReturn) ∧
    s.acked.Sublist (texts.filterMap codec.entryOf)

theorem Holds.durable {s : Journal} (h : s.Holds codec) : s.Durable codec := by
  obtain ⟨texts, rest, hsplit, hreturn, hacked⟩ := h
  have hchomp : (texts.map utf8).map chomp = texts.map utf8 := by
    rw [List.map_map]
    exact List.map_congr_left fun line hline => if_neg (hreturn line hline)
  obtain ⟨report, hreport, hentries⟩ := replay_entries hsplit hchomp rfl
  exact ⟨report, hreport, hentries ▸ hacked⟩

theorem Holds.append_line {s : Journal} (h : s.Holds codec) (hkeeps : codec.Keeps entry) :
    ∃ (texts : List String) (merged : String),
      Lines.split newline (s.file ++ codec.line entry) = ((texts ++ [merged]).map utf8, []) ∧
      (∀ line ∈ texts ++ [merged], (utf8 line).getLast? ≠ some carriageReturn) ∧
      s.acked.Sublist (texts.filterMap codec.entryOf) ∧
      (s.file = [] ∨ s.file.getLast? = some newline → merged = codec.toJson entry) := by
  obtain ⟨texts, rest, hsplit, hreturn, hacked⟩ := h
  refine ⟨texts, rest ++ codec.toJson entry, ?_, ?_, hacked, fun hended => ?_⟩
  · rw [line, Lines.split_append_line hkeeps.oneLine, hsplit]
    simp [utf8_append]
  · intro line hline
    rcases List.mem_append.mp hline with htexts | hmerged
    · exact hreturn line htexts
    · obtain rfl := List.mem_singleton.mp hmerged
      rw [utf8_append, List.getLast?_append, hkeeps.closes, Option.some_or]
      decide
  · have hrest := Lines.split_snd_eq_nil.mpr hended
    rw [hsplit] at hrest
    obtain rfl := utf8_eq_nil.mp hrest
    exact String.empty_append ..

theorem Holds.step {s : Journal} {call : Call} (h : s.Holds codec) (hsound : s.Sound codec call)
    (hkeeps : ∀ entry ∈ call.entry, codec.Keeps entry) : (s.step codec call).Holds codec := by
  cases call with
  | «open» => exact h
  | append entry stopped =>
    have hentry := hkeeps entry rfl
    cases stopped with
    | none =>
      obtain ⟨texts, merged, hsplit, hreturn, hacked, hwhole⟩ := h.append_line hentry
      obtain rfl := hwhole hsound
      refine ⟨_, "", hsplit, hreturn, ?_⟩
      rw [List.filterMap_append]
      refine hacked.append ?_
      simp [hentry.entryOf_toJson]
    | some written =>
      by_cases hpart : (codec.line entry).take written = codec.line entry
      · obtain ⟨texts, merged, hsplit, hreturn, hacked, -⟩ := h.append_line hentry
        refine ⟨_, "", (congrArg (Lines.split newline ∘ (s.file ++ ·)) hpart).trans hsplit, hreturn, ?_⟩
        rw [List.filterMap_append]
        exact hacked.trans (List.sublist_append_left ..)
      · obtain ⟨texts, rest, hsplit, hreturn, hacked⟩ := h
        obtain ⟨text, htext⟩ := Option.ne_none_iff_exists'.mp hsound
        refine ⟨texts, rest ++ text, ?_, hreturn, hacked⟩
        rw [Journal.step, Lines.split_append_part (hentry.newline_notMem_take hpart), hsplit, utf8_append,
          fromUtf8_eq_some.mp htext]

theorem holds_empty : ({} : Journal).Holds codec := ⟨[], "", rfl, by simp, List.Sublist.refl _⟩

end Journal

/-! ## Whole runs -/

/-- Every run keeps what it acknowledged, whatever stops its appends. -/
def AlwaysDurable (codec : EntryCodec) : Prop :=
  ∀ calls : List Call, (∀ call ∈ calls, ∀ entry ∈ call.entry, codec.Keeps entry) →
    Runs.AllStates (Journal.step codec) (Journal.Durable codec) {} calls

theorem durable_of_sound (codec : EntryCodec) (calls : List Call)
    (hkeeps : ∀ call ∈ calls, ∀ entry ∈ call.entry, codec.Keeps entry)
    (hsound : Runs.AllSteps (Journal.step codec) (Journal.Sound codec) {} calls) :
    Runs.AllStates (Journal.step codec) (Journal.Durable codec) {} calls :=
  (hsound.and (Runs.allSteps_of_calls hkeeps)).allStates Journal.holds_empty
    (fun _ _ hholds hcall => hholds.step hcall.1 hcall.2) (fun _ hholds => hholds.durable)

end

/-! ## Two entries -/

def firstEntry : JournalEntry := ⟨42, 1, 1024, none⟩

def secondEntry : JournalEntry := ⟨42, 2, 2048, none⟩

/-- What `serde_json` writes for an entry without a digest, and what it reads of the two. -/
def sampleCodec : EntryCodec where
  toJson entry :=
    "\x7b\"upload_id\":" ++ toString entry.uploadId ++ ",\"chunks_done\":" ++ toString entry.chunksDone ++
      ",\"bytes\":" ++ toString entry.bytes ++ ",\"sha_partial\":null\x7d"
  fromJson text :=
    if text = "\x7b\"upload_id\":42,\"chunks_done\":1,\"bytes\":1024,\"sha_partial\":null\x7d" then some firstEntry
    else if text = "\x7b\"upload_id\":42,\"chunks_done\":2,\"bytes\":2048,\"sha_partial\":null\x7d" then
      some secondEntry
    else none

theorem sampleCodec_keeps {entry : JournalEntry} (h : entry = firstEntry ∨ entry = secondEntry) :
    sampleCodec.Keeps entry := by
  rcases h with rfl | rfl
  all_goals exact ⟨by decide, by decide, by decide, by decide⟩

/-- A crash inside the second line, after the first was acknowledged. -/
theorem durable_of_sound_torn : Runs.AllStates (Journal.step sampleCodec) (Journal.Durable sampleCodec) {}
    [.append firstEntry none, .open, .append secondEntry (some 7), .open] :=
  durable_of_sound sampleCodec _ (by simp [Call.entry, sampleCodec_keeps])
    ⟨.inl rfl, trivial, by unfold Journal.Sound; decide, trivial, trivial⟩

/-- The line that is appended to a torn one is lost with it. -/
theorem not_alwaysDurable : ¬ AlwaysDurable sampleCodec := by
  intro hdurable
  obtain ⟨report, hreport, hacked⟩ := (hdurable [.append firstEntry (some 7), .open, .append secondEntry none]
    (by simp [Call.entry, sampleCodec_keeps])).run
  have hlost : sampleCodec.replay ((sampleCodec.line firstEntry).take 7 ++ sampleCodec.line secondEntry) =
      .ok ⟨[], 1⟩ := by decide
  cases hlost.symm.trans hreport
  cases hacked

end Pcloud.UploadJournal
