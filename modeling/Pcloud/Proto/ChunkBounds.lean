import Pcloud.Proto.HttpFraming
import Mathlib.Tactic.Ring

/-!
# What a chunked body takes and holds

`stream_chunked_body` of `pcloud-proto/src/http_download.rs` with the line it keeps in memory counted.
Chunks are bounded by `max_body_bytes`, lines and trailers are not: the body reads them as long as the
server goes on. A server class has a bound exactly where its lines and trailers have one.
-/

namespace Pcloud

open Packets

/-! ## The buffers -/

/-- A transfer, and the longest line that was in memory. The other buffers have a fixed size. -/
structure Held where
  transfer : Transfer
  peak : Nat

/-- The number of bytes to come. -/
def Held.left (h : Held) : Nat := h.transfer.packets.flatten.length

/-- `buffer`, and the two bytes of `expect_crlf`. -/
def fixedBuffers : Nat := streamReadBuf + 2

abbrev Metered := ExceptT HttpDownloadError (StateM Held)

namespace Metered

def exec {α : Type} (x : Metered α) (h : Held) : Except HttpDownloadError α × Held := x.run h

/-- A part that keeps no line. -/
def of {α : Type} (x : Fetch α) : Metered α :=
  ExceptT.mk fun h => ((x.exec h.transfer).1, { h with transfer := (x.exec h.transfer).2 })

/-- There are `bytes` of a line in memory. -/
def hold (bytes : Nat) : Metered Unit := modify fun h => { h with peak := max h.peak bytes }

def readLineBytes : Nat → Bytes → Metered Bytes
  | 0, _ => throw .io
  | fuel + 1, bytes => do
    let byte ← of (Fetch.read 1)
    if byte.isEmpty then throw (.malformed "unexpected eof while reading chunked body")
    hold (bytes.length + 1)
    let bytes := bytes ++ byte
    if crlf <:+ bytes then pure bytes else readLineBytes fuel bytes

def readLine : Metered String := do
  let bytes ← readLineBytes ((← of Fetch.incoming) + 1) []
  match fromUtf8 (bytes.take (bytes.length - 2)) with
  | none => throw (.malformed "chunk metadata was not utf8")
  | some line => pure line

def skipTrailers : Nat → Metered Unit
  | 0 => throw .io
  | fuel + 1 => do
    let trailer ← readLine
    if trailer.isEmpty then pure () else skipTrailers fuel

/-- A turn of the loop from its size line on. `next` is the loop. -/
def turn (config : HttpDownloadConfig) (next : Nat → Metered Nat) (written : Nat) (sizeLine : String) :
    Metered Nat := do
  let chunkSize ← chunkSize sizeLine
  if chunkSize = 0 then
    skipTrailers ((← of Fetch.incoming) + 1)
    pure written
  else if config.maxBodyBytes < satAdd written chunkSize then throw .bodyTooLarge
  else do
    let written ← of (copyChunk (chunkSize + 1) chunkSize written)
    of expectCrlf
    next written

def streamChunkedBody (config : HttpDownloadConfig) : Nat → Nat → Metered Nat
  | 0, _ => throw .io
  | fuel + 1, written => do
    of Fetch.checkDeadline
    let sizeLine ← readLine
    turn config (streamChunkedBody config fuel) written sizeLine

/-! ## The same run -/

section

variable {α β : Type} {x : Metered α} {y : Fetch α} {f : α → Metered β} {g : α → Fetch β}

theorem exec_bind (x : Metered α) (f : α → Metered β) (h : Held) :
    (x >>= f).exec h = match x.exec h with
      | (.ok a, h) => (f a).exec h
      | (.error e, h) => (.error e, h) := by
  show (ExceptT.bindCont f (x.run h).1) (x.run h).2 = _
  unfold exec
  rcases x.run h with ⟨e | a, h'⟩
  · rfl
  · rfl

theorem exec_ok_bind (a : α) (f : α → Metered β) (h : Held) :
    ((liftM (Except.ok a : Except HttpDownloadError α) : Metered α) >>= f).exec h = (f a).exec h := rfl

theorem exec_of (y : Fetch α) (h : Held) :
    (of y).exec h = ((y.exec h.transfer).1, { h with transfer := (y.exec h.transfer).2 }) := rfl

/-- Without the count of the buffers, `x` is `y`. -/
def Erases (x : Metered α) (y : Fetch α) : Prop :=
  ∀ h, (x.exec h).1 = (y.exec h.transfer).1 ∧ (x.exec h).2.transfer = (y.exec h.transfer).2

theorem erases_of (y : Fetch α) : Erases (of y) y := fun _ => ⟨rfl, rfl⟩

theorem erases_pure (a : α) : Erases (pure a) (pure a) := fun _ => ⟨rfl, rfl⟩

theorem erases_throw (e : HttpDownloadError) : Erases (throw e : Metered α) (throw e) := fun _ => ⟨rfl, rfl⟩

theorem erases_liftExcept (r : Except HttpDownloadError α) : Erases (liftM r) (liftM r) := by
  rcases r with e | a
  · exact erases_throw e
  · exact erases_pure a

theorem Erases.bind (hx : Erases x y) (hf : ∀ a, Erases (f a) (g a)) : Erases (x >>= f) (y >>= g) := by
  intro h
  have hsame := hx h
  rw [exec_bind, Fetch.exec_bind]
  revert hsame
  rcases x.exec h with ⟨e | a, h'⟩
  · rcases y.exec h.transfer with ⟨e | a, s⟩
    · rintro ⟨⟨⟩, ⟨⟩⟩
      exact ⟨rfl, rfl⟩
    · rintro ⟨⟨⟩, -⟩
  · rcases y.exec h.transfer with ⟨e | a, s⟩
    · rintro ⟨⟨⟩, -⟩
    · rintro ⟨⟨⟩, ⟨⟩⟩
      exact hf a h'

theorem Erases.hold_bind {f : Unit → Metered α} (bytes : Nat) (hf : Erases (f ()) y) :
    Erases (hold bytes >>= f) y := by
  intro h
  exact hf { h with peak := max h.peak bytes }

end

theorem erases_readLineBytes (fuel : Nat) (bytes : Bytes) :
    Erases (readLineBytes fuel bytes) (Pcloud.readLineBytes fuel bytes) := by
  induction fuel generalizing bytes with
  | zero => exact erases_throw _
  | succ fuel ih =>
    unfold readLineBytes Pcloud.readLineBytes
    apply (erases_of _).bind
    intro byte
    split_ifs with hend
    · exact erases_throw _
    · apply Erases.hold_bind
      dsimp only
      split_ifs
      · exact erases_pure _
      · exact ih _

theorem erases_readLine : Erases readLine Pcloud.readLine := by
  unfold readLine Pcloud.readLine
  apply (erases_of _).bind
  intro incoming
  apply (erases_readLineBytes _ _).bind
  intro bytes
  rcases fromUtf8 (bytes.take (bytes.length - 2)) with _ | line
  · exact erases_throw _
  · exact erases_pure _

theorem erases_skipTrailers (fuel : Nat) : Erases (skipTrailers fuel) (Pcloud.skipTrailers fuel) := by
  induction fuel with
  | zero => exact erases_throw _
  | succ fuel ih =>
    unfold skipTrailers Pcloud.skipTrailers
    apply erases_readLine.bind
    intro trailer
    split_ifs
    · exact erases_pure _
    · exact ih

theorem erases_streamChunkedBody (config : HttpDownloadConfig) (fuel written : Nat) :
    Erases (streamChunkedBody config fuel written) (Pcloud.streamChunkedBody config fuel written) := by
  induction fuel generalizing written with
  | zero => exact erases_throw _
  | succ fuel ih =>
    unfold streamChunkedBody Pcloud.streamChunkedBody turn
    apply (erases_of _).bind
    intro _
    apply erases_readLine.bind
    intro sizeLine
    apply (erases_liftExcept _).bind
    intro size
    split_ifs
    · apply (erases_of _).bind
      intro incoming
      apply (erases_skipTrailers _).bind
      intro _
      exact erases_pure _
    · exact erases_throw _
    · apply (erases_of _).bind
      intro written
      apply (erases_of _).bind
      intro _
      exact ih written

/-! ## What is taken -/

section

variable {α β : Type} {x : Metered α} {f : α → Metered β} {y : Fetch α} {g : α → Fetch β}
variable {stream : Bytes} {held held' limit limit' : Nat} {P P' : Bytes → α → Prop} {Q : Bytes → β → Prop}

/-- With `stream` to come and `held` bytes of a line in memory, `x` takes at most `limit` bytes and adds to
the line no more than it takes. `P` says what is left and what is returned. -/
def Takes (x : Metered α) (stream : Bytes) (held limit : Nat) (P : Bytes → α → Prop) : Prop :=
  ∀ h : Held, Full h.transfer.packets → h.transfer.packets.flatten = stream →
    ∃ taken, stream = taken ++ (x.exec h).2.transfer.packets.flatten ∧ taken.length ≤ limit ∧
      Full (x.exec h).2.transfer.packets ∧ (x.exec h).2.peak ≤ max h.peak (held + taken.length) ∧
      ∀ a, (x.exec h).1 = .ok a → P (x.exec h).2.transfer.packets.flatten a

theorem Takes.mono (hx : Takes x stream held limit P) (hheld : held ≤ held') (hlimit : limit ≤ limit')
    (hP : ∀ rest a, P rest a → P' rest a) : Takes x stream held' limit' P' := by
  intro h hfull hstream
  obtain ⟨taken, htaken, hlength, hfull', hpeak, hok⟩ := hx h hfull hstream
  exact ⟨taken, htaken, by omega, hfull', by omega, fun a ha => hP _ _ (hok a ha)⟩

theorem Takes.bind {first : Nat} (hx : Takes x stream held first P) (hfirst : first ≤ limit)
    (hf : ∀ taken rest a, stream = taken ++ rest → taken.length ≤ first → P rest a →
      Takes (f a) rest (held + taken.length) (limit - taken.length) Q) :
    Takes (x >>= f) stream held limit Q := by
  intro h hfull hstream
  obtain ⟨taken, htaken, hlength, hfull', hpeak, hok⟩ := hx h hfull hstream
  rw [exec_bind]
  rcases hxe : x.exec h with ⟨e | a, h'⟩
  all_goals
    rw [hxe] at htaken hfull' hpeak hok
    dsimp only at htaken hfull' hpeak hok
  · refine ⟨taken, htaken, by omega, hfull', hpeak, ?_⟩
    rintro a ⟨⟩
  · obtain ⟨more, hmore, hlength', hfull'', hpeak', hok'⟩ :=
      hf taken _ a htaken hlength (hok a rfl) h' hfull' rfl
    refine ⟨taken ++ more, ?_, ?_, hfull'', ?_, hok'⟩
    · rw [List.append_assoc, ← hmore, ← htaken]
    · rw [List.length_append]
      omega
    · rw [List.length_append]
      dsimp only at hpeak' ⊢
      omega

theorem Takes.spec {Fails : HttpDownloadError → Prop} (hx : Takes x stream held limit fun _ _ => True)
    (hxy : Erases x y) (hy : Fetch.Spec y stream Fails fun rest _ a => P rest a) : Takes x stream held limit P := by
  intro h hfull hstream
  obtain ⟨taken, htaken, hlength, hfull', hpeak, -⟩ := hx h hfull hstream
  refine ⟨taken, htaken, hlength, hfull', hpeak, fun a ha => ?_⟩
  obtain ⟨_, -, hresult⟩ := hy h.transfer hfull hstream
  rw [← (hxy h).1, ha, ← (hxy h).2] at hresult
  exact hresult

theorem takes_pure {a : α} (ha : P stream a) : Takes (pure a) stream held limit P := by
  intro h hfull hstream
  refine ⟨[], hstream.symm, Nat.zero_le _, hfull, le_max_left _ _, ?_⟩
  rintro _ ⟨⟩
  exact hstream.symm ▸ ha

theorem takes_throw (e : HttpDownloadError) : Takes (throw e) stream held limit P := by
  intro h hfull hstream
  refine ⟨[], hstream.symm, Nat.zero_le _, hfull, le_max_left _ _, ?_⟩
  rintro a ⟨⟩

theorem takes_liftExcept {r : Except HttpDownloadError α} (hok : ∀ a, r = .ok a → P stream a) :
    Takes (liftM r) stream held limit P := by
  rcases r with e | a
  · exact takes_throw e
  · exact takes_pure (hok a rfl)

theorem takes_hold {bytes : Nat} (hbytes : bytes ≤ held) :
    Takes (hold bytes) stream held limit fun rest _ => rest = stream := by
  intro h hfull hstream
  refine ⟨[], hstream.symm, Nat.zero_le _, hfull, ?_, fun _ _ => hstream⟩
  show max h.peak bytes ≤ _
  rw [List.length_nil]
  omega

theorem Takes.of_bind {first : Nat} {P : Bytes → α → Prop} (hy : Takes (of y) stream held first P)
    (hfirst : first ≤ limit)
    (hg : ∀ taken rest a, stream = taken ++ rest → taken.length ≤ first → P rest a →
      Takes (of (g a)) rest (held + taken.length) (limit - taken.length) Q) :
    Takes (of (y >>= g)) stream held limit Q := by
  have hsame : (of (y >>= g)).exec = (of y >>= fun a => of (g a)).exec := by
    funext h
    rw [exec_bind, exec_of, exec_of, Fetch.exec_bind]
    rcases y.exec h.transfer with ⟨e | a, s⟩
    · rfl
    · rfl
  unfold Takes
  rw [hsame]
  exact hy.bind hfirst hg

theorem takes_of (hy : ∀ s : Transfer, Full s.packets → s.packets.flatten = stream →
    ∃ taken, stream = taken ++ (y.exec s).2.packets.flatten ∧ taken.length ≤ limit ∧ Full (y.exec s).2.packets ∧
      ∀ a, (y.exec s).1 = .ok a → P (y.exec s).2.packets.flatten a) : Takes (of y) stream held limit P := by
  intro h hfull hstream
  obtain ⟨taken, htaken, hlength, hfull', hok⟩ := hy h.transfer hfull hstream
  exact ⟨taken, htaken, hlength, hfull', le_max_left _ _, hok⟩

theorem takes_read (want : Nat) : Takes (of (Fetch.read want)) stream held want fun rest bytes =>
    stream = bytes ++ rest := by
  apply takes_of
  intro s hfull hstream
  rw [Fetch.exec_read]
  split_ifs with hbroken
  · refine ⟨[], hstream.symm, Nat.zero_le _, hfull, ?_⟩
    rintro a ⟨⟩
  · have hread := (read_append want s.packets).trans hstream
    refine ⟨_, hread.symm, length_read_le want _, hfull.read, ?_⟩
    rintro a ⟨⟩
    exact hread.symm

theorem takes_checkDeadline : Takes (of Fetch.checkDeadline) stream held 0 fun rest _ => rest = stream := by
  apply takes_of
  rintro ⟨packets, broken, _ | _ | checks, written, hashed⟩ hfull hstream
  all_goals exact ⟨[], hstream.symm, Nat.le_refl 0, hfull, fun _ _ => hstream⟩

theorem takes_incoming :
    Takes (of Fetch.incoming) stream held 0 fun rest n => rest = stream ∧ n = stream.length := by
  apply takes_of
  intro s hfull hstream
  refine ⟨[], hstream.symm, Nat.le_refl 0, hfull, ?_⟩
  rintro n ⟨⟩
  exact ⟨hstream, congrArg List.length hstream⟩

theorem takes_emit (bytes : Bytes) : Takes (of (Fetch.emit bytes)) stream held 0 fun rest _ => rest = stream := by
  apply takes_of
  intro s hfull hstream
  exact ⟨[], hstream.symm, Nat.le_refl 0, hfull, fun _ _ => hstream⟩

end

end Metered

/-! ## What the server sends -/

/-- No line at the start of `stream` goes on for more than `limit` bytes before it ends. -/
def LineWithin (limit : Nat) (stream : Bytes) : Prop :=
  ∀ start rest, stream = start ++ rest → Free crlf start → start.length ≤ limit

/-- Between `stream` and `rest` there are lines that are not empty and the start of a line. -/
inductive InTrailers : Bytes → Bytes → Prop
  | start {start rest : Bytes} (hfree : Free crlf start) : InTrailers (start ++ rest) rest
  | line {stream more rest : Bytes} {line : String} (hline : Line stream line more) (hmore : line ≠ "")
      (hrest : InTrailers more rest) : InTrailers stream rest

/-- The lines at the start of `stream` go on for at most `limit` bytes before an empty one ends. -/
def TrailersWithin (limit : Nat) (stream : Bytes) : Prop :=
  ∀ rest, InTrailers stream rest → stream.length ≤ rest.length + limit

/-- The loop comes to `rest` for the next size line, with `payload` written. -/
inductive Reaches (config : HttpDownloadConfig) (written : Nat) (stream : Bytes) : Bytes → Bytes → Prop
  | start : Reaches config written stream [] stream
  | chunk {payload rest chunk more : Bytes} {line : String} (hrest : Reaches config written stream payload rest)
      (hline : Line rest line (chunk ++ (crlf ++ more))) (hsize : chunkSize line = .ok chunk.length)
      (hmore : chunk ≠ []) (hfits : satAdd (written + payload.length) chunk.length ≤ config.maxBodyBytes) :
      Reaches config written stream (payload ++ chunk) more

/-- The lines of the server stay within `limit`. A sum that saturates is never above the largest
`max_body_bytes`, so there the chunks have to stay within it as well. -/
structure Restrained (config : HttpDownloadConfig) (written : Nat) (stream : Bytes) (limit : Nat) : Prop where
  sizeLines : ∀ payload rest, Reaches config written stream payload rest → LineWithin limit rest
  trailers : ∀ payload rest line more, Reaches config written stream payload rest → Line rest line more →
    chunkSize line = .ok 0 → TrailersWithin limit more
  payloads : u64Max ≤ config.maxBodyBytes → ∀ payload rest, Reaches config written stream payload rest →
    payload.length ≤ limit

/-- A whole body stays within the largest `max_body_bytes`. -/
def Fits (config : HttpDownloadConfig) (written : Nat) (stream : Bytes) : Prop :=
  u64Max ≤ config.maxBodyBytes → ∀ body, Chunked stream body → written + body.length ≤ max config.maxBodyBytes written

theorem lineWithin_length (stream : Bytes) : LineWithin stream.length stream := by
  rintro start rest rfl -
  rw [List.length_append]
  exact Nat.le_add_right _ _

theorem LineWithin.mono {limit limit' : Nat} {stream : Bytes} (h : LineWithin limit stream) (hle : limit ≤ limit') :
    LineWithin limit' stream :=
  fun start rest hstream hfree => (h start rest hstream hfree).trans hle

theorem TrailersWithin.line {limit : Nat} {stream : Bytes} (h : TrailersWithin limit stream) :
    LineWithin limit stream := by
  rintro start rest rfl hfree
  have := h rest (.start hfree)
  rw [List.length_append] at this
  omega

theorem TrailersWithin.next {limit : Nat} {line : String} {taken rest : Bytes}
    (h : TrailersWithin limit (taken ++ rest)) (hline : Line (taken ++ rest) line rest) (hmore : line ≠ "") :
    taken.length ≤ limit ∧ TrailersWithin (limit - taken.length) rest := by
  have hnext : ∀ more, InTrailers rest more → taken.length + rest.length ≤ more.length + limit := by
    intro more hrest
    have := h more (.line hline hmore hrest)
    rwa [List.length_append] at this
  have hlength := hnext rest (InTrailers.start free_crlf : InTrailers ([] ++ rest) rest)
  refine ⟨by omega, fun more hrest => ?_⟩
  have := hnext more hrest
  omega

theorem le_u64Max_of_chunkSize {line : String} {size : Nat} (h : chunkSize line = .ok size) : size ≤ u64Max := by
  unfold chunkSize at h
  dsimp only at h
  split at h
  · cases h
  · rename_i value hvalue
    obtain rfl := Except.ok.inj h
    unfold parseUnsigned at hvalue
    dsimp only at hvalue
    split_ifs at hvalue
    exact of_decide_eq_true (Option.filter_eq_some_iff.mp hvalue).2

section

variable {config : HttpDownloadConfig} {written limit size : Nat} {stream payload rest : Bytes} {line : String}

theorem Reaches.length_le (h : Reaches config written stream payload rest) :
    payload.length + rest.length ≤ stream.length := by
  induction h with
  | start => simp
  | chunk hrest hline _ _ _ ih =>
    have := hline.length_lt
    simp only [List.length_append] at this ⊢
    omega

theorem restrained_length (config : HttpDownloadConfig) (written : Nat) (stream : Bytes) :
    Restrained config written stream stream.length := by
  refine ⟨?_, ?_, ?_⟩
  · intro payload rest hrest
    have := hrest.length_le
    exact (lineWithin_length rest).mono (by omega)
  · intro payload rest line more hrest hline _ left _
    have := hrest.length_le
    have := hline.length_lt
    omega
  · intro _ payload rest hrest
    have := hrest.length_le
    omega

theorem Restrained.payload_le (h : Restrained config written stream limit)
    (hrest : Reaches config written stream payload rest) (hsize : chunkSize line = .ok size)
    (hfits : satAdd (written + payload.length) size ≤ config.maxBodyBytes) :
    payload.length + size ≤ limit + config.maxBodyBytes := by
  by_cases hmax : u64Max ≤ config.maxBodyBytes
  · have := h.payloads hmax payload rest hrest
    have := le_u64Max_of_chunkSize hsize
    omega
  · unfold satAdd at hfits
    omega

end

namespace Metered

variable {stream bytes : Bytes} {limit : Nat}

/-! ## The loops take no more -/

theorem takes_readLineBytes (fuel : Nat) (hfree : Free crlf bytes)
    (hline : ∀ start rest, stream = start ++ rest → Free crlf (bytes ++ start) → start.length ≤ limit) :
    Takes (readLineBytes fuel bytes) stream bytes.length (limit + 1) fun _ _ => True := by
  induction fuel generalizing bytes stream limit with
  | zero => exact takes_throw _
  | succ fuel ih =>
    unfold readLineBytes
    apply (takes_read 1).bind (by omega)
    rintro byte rest _ rfl hlength hbyte
    obtain rfl := List.append_cancel_right hbyte
    rcases byte with _ | ⟨b, _ | ⟨b', more⟩⟩
    · exact takes_throw _
    · apply (takes_hold (Nat.le_refl _)).bind (Nat.zero_le _)
      rintro _ rest _ - hnothing rfl
      dsimp only
      split_ifs with hends
      · exact takes_pure trivial
      · have hpos : 1 ≤ limit := hline [b] rest rfl (hfree.snoc hends)
        have hrest : ∀ start more, rest = start ++ more → Free crlf (bytes ++ [b] ++ start) →
            start.length ≤ limit - 1 := by
          rintro start more rfl hstart
          have := hline ([b] ++ start) more (List.append_assoc ..).symm (by rwa [← List.append_assoc])
          rw [List.length_append, List.length_singleton] at this
          omega
        apply (ih (hfree.snoc hends) hrest).mono
        · simp
        · simp only [List.length_singleton]
          omega
        · exact fun _ _ h => h
    · simp at hlength

theorem takes_readLine (hline : LineWithin limit stream) :
    Takes readLine stream 0 (limit + 1) fun rest line => Line stream line rest := by
  refine Takes.spec ?_ erases_readLine spec_readLine.quiet
  unfold readLine
  apply takes_incoming.bind (Nat.zero_le _)
  rintro taken rest incoming - hnothing ⟨rfl, rfl⟩
  rw [Nat.le_zero.mp hnothing]
  apply (takes_readLineBytes _ free_crlf hline).bind (Nat.le_refl _)
  rintro taken rest bytes - - -
  split
  · exact takes_throw _
  · exact takes_pure trivial

theorem takes_skipTrailers (fuel : Nat) (htrailers : TrailersWithin limit stream) :
    Takes (skipTrailers fuel) stream 0 (limit + 1) fun _ _ => True := by
  induction fuel generalizing stream limit with
  | zero => exact takes_throw _
  | succ fuel ih =>
    unfold skipTrailers
    apply (takes_readLine htrailers.line).bind (Nat.le_refl _)
    rintro taken rest line rfl - hline
    split_ifs with hempty
    · exact takes_pure trivial
    · obtain ⟨hlength, hrest⟩ := htrailers.next hline (by simpa using hempty)
      apply (ih hrest).mono (Nat.zero_le _) _ fun _ _ h => h
      omega

theorem takes_copyChunk (fuel remaining written held : Nat) :
    Takes (of (copyChunk fuel remaining written)) stream held remaining fun _ _ => True := by
  induction fuel generalizing remaining written held stream with
  | zero => exact takes_throw _
  | succ fuel ih =>
    unfold copyChunk
    split_ifs with hmore
    · apply takes_checkDeadline.of_bind (Nat.zero_le _)
      rintro taken rest _ - hnothing rfl
      apply (takes_read _).of_bind (by omega)
      rintro bytes rest bytes' rfl hlength hbytes
      obtain rfl := List.append_cancel_right hbytes
      split_ifs
      · exact takes_throw _
      · apply (takes_emit bytes).of_bind (Nat.zero_le _)
        rintro taken' rest _ - hnothing' rfl
        apply (ih _ _ _).mono (Nat.le_refl _) _ fun _ _ h => h
        omega
    · exact takes_pure trivial

theorem takes_expectCrlf (held : Nat) : Takes (of expectCrlf) stream held 2 fun _ _ => True := by
  have htwo : Takes (of readTwo) stream held 2 fun _ _ => True := by
    unfold readTwo
    apply (takes_read 2).of_bind (Nat.le_refl 2)
    rintro first rest first' rfl hlength hfirst
    obtain rfl := List.append_cancel_right hfirst
    split_ifs with hone
    · apply (takes_read 1).of_bind (by omega)
      rintro second rest _ - - -
      exact takes_pure trivial
    · exact takes_pure trivial
  unfold expectCrlf
  apply htwo.of_bind (Nat.le_refl 2)
  rintro taken rest bytes - - -
  split_ifs
  · exact takes_throw _
  · exact takes_throw _
  · exact takes_pure trivial

section

variable {config : HttpDownloadConfig} {line : String} {written room : Nat} {next : Nat → Metered Nat} {P : Nat → Prop}

theorem spec_chunkOfSize (size : Nat) : Fetch.Spec (copyChunk (size + 1) size written) stream
    (fun _ => stream.length < size)
    fun rest _ n => n = written + size ∧ ∃ chunk, chunk.length = size ∧ stream = chunk ++ rest := by
  apply (spec_copyChunk _ _ _ (Nat.lt_succ_self _)).mono _ fun _ h => h
  rintro rest chunk n ⟨hstream, rfl, rfl⟩
  exact ⟨rfl, chunk, rfl, hstream⟩

theorem takes_turn (hlast : chunkSize line = .ok 0 → P written ∧ ∃ limit, TrailersWithin limit stream ∧ limit < room)
    (hnext : ∀ size, chunkSize line = .ok size → size ≠ 0 → satAdd written size ≤ config.maxBodyBytes →
      size + 2 ≤ room ∧ ∀ chunk rest, chunk.length = size → stream = chunk ++ (crlf ++ rest) →
        Takes (next (written + size)) rest 0 (room - (size + 2)) fun _ n => P n) :
    Takes (turn config next written line) stream 0 room fun _ n => P n := by
  unfold turn
  apply Takes.bind (P := fun rest size => rest = stream ∧ chunkSize line = .ok size) _ (Nat.zero_le _)
  · rintro taken rest size - hnothing ⟨rfl, hsize⟩
    rw [Nat.le_zero.mp hnothing]
    split_ifs with hzero hlarge
    · obtain ⟨hP, limit, htrailers, hlimit⟩ := hlast (hzero ▸ hsize)
      apply takes_incoming.bind (Nat.zero_le _)
      rintro taken rest incoming - hnothing ⟨rfl, rfl⟩
      rw [Nat.le_zero.mp hnothing]
      apply (takes_skipTrailers _ htrailers).bind hlimit
      rintro taken rest _ - - -
      exact takes_pure hP
    · exact takes_throw _
    · obtain ⟨hroom, hrest⟩ := hnext size hsize hzero (by omega)
      apply ((takes_copyChunk _ _ _ _).spec (erases_of _) (spec_chunkOfSize size)).bind (by omega)
      rintro taken mid n htaken htakes ⟨rfl, chunk, hlength, hchunk⟩
      obtain ⟨rfl, -⟩ := List.append_inj' (htaken.symm.trans hchunk) rfl
      apply ((takes_expectCrlf _).spec (erases_of _) spec_expectCrlf.quiet).bind
        (by omega)
      rintro end' more _ - htwo rfl
      apply (hrest taken more hlength hchunk).mono (Nat.zero_le _) _ fun _ _ h => h
      omega
  · exact takes_liftExcept fun size hsize => ⟨rfl, hsize⟩

/-- What the loop takes from a size line on, with `payload` bytes written. Each chunk has a byte at least, and
with it come a line and two bytes. The last line may have trailers instead. -/
def roomAfter (limit maxBodyBytes payload : Nat) : Nat :=
  (limit + maxBodyBytes - payload) * (limit + 4) + 2 * (limit + 1)

theorem roomAfter_chunk {maxBodyBytes payload size : Nat} (hfits : payload + size ≤ limit + maxBodyBytes)
    (hsize : size ≠ 0) :
    roomAfter limit maxBodyBytes (payload + size) + (limit + 1) + (size + 2) ≤
      roomAfter limit maxBodyBytes payload := by
  obtain ⟨left, hleft⟩ := Nat.exists_eq_add_of_le hfits
  have hafter : limit + maxBodyBytes - (payload + size) = left := by omega
  have hbefore : limit + maxBodyBytes - payload = left + size := by omega
  have hline : limit + 3 ≤ size * (limit + 3) := Nat.le_mul_of_pos_left _ (Nat.pos_of_ne_zero hsize)
  unfold roomAfter
  rw [hafter, hbefore]
  calc left * (limit + 4) + 2 * (limit + 1) + (limit + 1) + (size + 2)
      = left * (limit + 4) + (limit + 3) + size + 2 * (limit + 1) := by omega
    _ ≤ left * (limit + 4) + size * (limit + 3) + size + 2 * (limit + 1) := by omega
    _ = (left + size) * (limit + 4) + 2 * (limit + 1) := by ring

theorem takes_streamChunkedBody {payload rest : Bytes} (hstream : Restrained config written stream limit) (fuel : Nat)
    (hrest : Reaches config written stream payload rest)
    (hwritten : config.maxBodyBytes < u64Max → written + payload.length ≤ max config.maxBodyBytes written) :
    Takes (streamChunkedBody config fuel (written + payload.length)) rest 0
      (roomAfter limit config.maxBodyBytes payload.length)
      fun _ n => config.maxBodyBytes < u64Max → n ≤ max config.maxBodyBytes written := by
  induction fuel generalizing payload rest with
  | zero => exact takes_throw _
  | succ fuel ih =>
    unfold streamChunkedBody
    apply takes_checkDeadline.bind (Nat.zero_le _)
    rintro taken rest _ - hnothing rfl
    rw [Nat.le_zero.mp hnothing]
    have hroom : 2 * (limit + 1) ≤ roomAfter limit config.maxBodyBytes payload.length := Nat.le_add_left _ _
    apply (takes_readLine (hstream.sizeLines payload rest hrest)).bind (by omega)
    rintro taken more line rfl htaken hline
    apply Takes.mono _ (Nat.zero_le _) (Nat.le_refl _) fun _ _ h => h
    apply takes_turn
    · intro hlast
      exact ⟨hwritten, limit, hstream.trailers payload _ line more hrest hline hlast, by omega⟩
    · intro size hsize hzero hfits
      have hchunk := roomAfter_chunk (hstream.payload_le hrest hsize hfits) hzero
      refine ⟨by omega, ?_⟩
      rintro chunk rest rfl rfl
      have hmore : chunk ≠ [] := fun hempty => hzero (by rw [hempty, List.length_nil])
      rw [Nat.add_assoc, ← List.length_append]
      apply (ih (hrest.chunk hline hsize hmore hfits) _).mono (Nat.le_refl 0) _ fun _ _ h => h
      · intro hmax
        unfold satAdd at hfits
        rw [List.length_append]
        omega
      · rw [List.length_append]
        omega

end

/-! ## The loops take no less -/

section

variable {α β : Type} {x : Metered α} {f : α → Metered β} {y : Fetch α} {h : Held} {held n : Nat}
variable {rest start : Bytes} {P : Bytes → α → Prop} {Q : Bytes → β → Prop} {Fails : HttpDownloadError → Prop}

/-- `stream` is to come, and nothing goes wrong outside. -/
structure Ready (h : Held) (stream : Bytes) : Prop where
  full : Full h.transfer.packets
  stream : h.transfer.packets.flatten = stream
  faultless : h.transfer.Faultless

theorem Takes.left_le (hx : Takes x stream held limit P) (hh : Ready h stream) :
    (x.exec h).2.left ≤ stream.length := by
  obtain ⟨taken, htaken, -⟩ := hx h hh.full hh.stream
  rw [htaken, List.length_append]
  exact Nat.le_add_left _ _

theorem Takes.trim (hx : Takes x stream held limit P) : Takes x stream held stream.length P := by
  intro h hfull hstream
  obtain ⟨taken, htaken, -, hrest⟩ := hx h hfull hstream
  refine ⟨taken, htaken, ?_, hrest⟩
  have := congrArg List.length htaken
  rw [List.length_append] at this
  omega

theorem Takes.left_bind_le (hx : Takes x stream held limit P)
    (hf : ∀ rest a, P rest a → ∃ limit, Takes (f a) rest 0 limit Q) (hh : Ready h stream)
    (hleft : (x.exec h).2.left ≤ n) : ((x >>= f).exec h).2.left ≤ n := by
  obtain ⟨taken, -, -, hfull, -, hok⟩ := hx h hh.full hh.stream
  rw [exec_bind]
  rcases hxe : x.exec h with ⟨e | a, h'⟩
  all_goals rw [hxe] at hleft hfull hok
  · exact hleft
  · obtain ⟨limit, hfa⟩ := hf _ a (hok a rfl)
    obtain ⟨more, hmore, -⟩ := hfa h' hfull rfl
    refine Nat.le_trans ?_ hleft
    show _ ≤ h'.transfer.packets.flatten.length
    rw [hmore, List.length_append]
    exact Nat.le_add_left _ _

theorem Erases.runs (hxy : Erases x y) (hy : Fetch.Spec y stream Fails fun rest _ a => P rest a)
    (hfails : ∀ e, ¬ Fails e) (hh : Ready h stream) :
    ∃ a h' rest, Ready h' rest ∧ P rest a ∧ ∀ {β : Type} (f : α → Metered β), (x >>= f).exec h = (f a).exec h' := by
  obtain ⟨bytes, hadvances, hresult⟩ := hy h.transfer hh.full hh.stream
  obtain ⟨hsame, htransfer⟩ := hxy h
  rcases hxe : x.exec h with ⟨e | a, h'⟩
  all_goals
    rw [hxe] at hsame htransfer
    rw [← hsame, ← htransfer] at hresult
    rw [← htransfer] at hadvances
  · exact absurd (hresult.2 hh.faultless) (hfails e)
  · refine ⟨a, h', _, ⟨hadvances.full, rfl, hadvances.faultless hh.faultless⟩, hresult, fun f => ?_⟩
    rw [exec_bind, hxe]

theorem runs_of (hy : Fetch.Spec y stream (fun _ => False) fun rest bytes a => bytes = [] ∧ P rest a)
    (hh : Ready h stream) :
    ∃ a h' rest, Ready h' rest ∧ P rest a ∧ ∀ {β : Type} (f : α → Metered β), (of y >>= f).exec h = (f a).exec h' :=
  (erases_of y).runs hy.quiet (fun _ h => h) hh

theorem readLineBytes_left_le (fuel : Nat) (hh : Ready h stream) (hfuel : stream.length < fuel)
    (hbytes : Free crlf bytes) (hstream : stream = start ++ rest) (hfree : Free crlf (bytes ++ start)) :
    ((readLineBytes fuel bytes).exec h).2.left ≤ rest.length := by
  induction fuel generalizing stream bytes start h with
  | zero => omega
  | succ fuel ih =>
    rcases start with _ | ⟨b, start⟩
    · obtain rfl : stream = rest := hstream
      apply (takes_readLineBytes _ hbytes fun start rest hstream _ => ?_).left_le hh
      · exact stream.length
      · rw [hstream, List.length_append]
        exact Nat.le_add_right _ _
    · unfold readLineBytes
      obtain ⟨byte, h', mid, hh', hbyte, hrun⟩ := runs_of Fetch.spec_readByte hh
      rw [hrun]
      rcases hbyte with ⟨-, hend⟩ | ⟨b', rfl, hmid⟩
      · rw [hend] at hstream
        cases hstream
      · rw [hmid] at hstream
        obtain ⟨rfl, rfl⟩ : b' = b ∧ mid = start ++ rest := by simpa using hstream
        have hsnoc : ¬ crlf <:+ bytes ++ [b'] := by
          have := hfree (bytes.length + 1) (by simp)
          rwa [List.append_cons, List.take_append_of_le_length (by simp), List.take_of_length_le (by simp)] at this
        show ((if crlf <:+ bytes ++ [b'] then _ else _ : Metered Bytes).exec _).2.left ≤ _
        rw [if_neg hsnoc]
        rw [hmid] at hfuel
        have hheld : Ready { h' with peak := max h'.peak (bytes.length + 1) } (start ++ rest) :=
          ⟨hh'.full, hh'.stream, hh'.faultless⟩
        apply ih hheld _ (hbytes.snoc hsnoc) rfl
        · rwa [List.append_assoc]
        · simp at hfuel ⊢
          omega

theorem readLine_left_le (hh : Ready h (start ++ rest)) (hfree : Free crlf start) :
    (readLine.exec h).2.left ≤ rest.length := by
  unfold readLine
  obtain ⟨incoming, h', stream, hh', ⟨hstream, rfl⟩, hrun⟩ := runs_of Fetch.spec_incoming hh
  rw [hrun]
  subst hstream
  apply (takes_readLineBytes _ free_crlf (lineWithin_length _)).left_bind_le (Q := fun _ _ => True) _ hh'
    (readLineBytes_left_le _ hh' (Nat.lt_succ_self _) free_crlf rfl hfree)
  intro rest bytes _
  refine ⟨0, ?_⟩
  split
  · exact takes_throw _
  · exact takes_pure trivial

theorem readLine_runs {line : String} (hh : Ready h stream) (hline : Line stream line rest) :
    ∃ h', Ready h' rest ∧ ∀ {β : Type} (f : String → Metered β), (readLine >>= f).exec h = (f line).exec h' := by
  obtain ⟨line', h', rest', hh', hline', hrun⟩ := erases_readLine.runs
    spec_readLine.quiet (fun _ hnone => hnone ⟨line, rest, hline⟩) hh
  obtain ⟨rfl, rfl⟩ := hline.unique hline'
  exact ⟨h', hh', hrun⟩

theorem checkDeadline_runs (hh : Ready h stream) :
    ∃ h', Ready h' stream ∧
      ∀ {β : Type} (f : Unit → Metered β), (of Fetch.checkDeadline >>= f).exec h = (f ()).exec h' := by
  obtain ⟨_, h', rest, hh', rfl, hrun⟩ := runs_of Fetch.spec_checkDeadline hh
  exact ⟨h', hh', hrun⟩

theorem incoming_runs (hh : Ready h stream) :
    ∃ h', Ready h' stream ∧
      ∀ {β : Type} (f : Nat → Metered β), (of Fetch.incoming >>= f).exec h = (f stream.length).exec h' := by
  obtain ⟨_, h', rest, hh', ⟨rfl, rfl⟩, hrun⟩ := runs_of Fetch.spec_incoming hh
  exact ⟨h', hh', hrun⟩

theorem skipTrailers_left_le (fuel : Nat) (hh : Ready h stream) (hfuel : stream.length < fuel)
    (hrest : InTrailers stream rest) : ((skipTrailers fuel).exec h).2.left ≤ rest.length := by
  induction hrest generalizing fuel h with
  | @start start rest hfree =>
    rcases fuel with _ | fuel
    · omega
    · unfold skipTrailers
      apply (takes_readLine (lineWithin_length _)).left_bind_le (Q := fun _ _ => True) _ hh (readLine_left_le hh hfree)
      intro rest trailer _
      refine ⟨rest.length + 1, ?_⟩
      split_ifs
      · exact takes_pure trivial
      · exact takes_skipTrailers _ fun _ _ => Nat.le_add_left _ _
  | line hline hmore _ ih =>
    rcases fuel with _ | fuel
    · omega
    · unfold skipTrailers
      obtain ⟨h', hh', hrun⟩ := readLine_runs hh hline
      rw [hrun, if_neg (by simpa using hmore)]
      have hlength := hline.length_lt
      exact ih _ hh' (by omega)

variable {config : HttpDownloadConfig} {written size : Nat} {payload more body : Bytes} {line : String}

theorem streamChunkedBody_runs {chunk : Bytes} (fuel : Nat) (hh : Ready h stream)
    (hline : Line stream line (chunk ++ (crlf ++ rest))) (hsize : chunkSize line = .ok chunk.length)
    (hmore : chunk ≠ []) (hfits : satAdd written chunk.length ≤ config.maxBodyBytes) :
    ∃ h', Ready h' rest ∧ (streamChunkedBody config (fuel + 1) written).exec h =
      (streamChunkedBody config fuel (written + chunk.length)).exec h' := by
  obtain ⟨h₁, hh₁, hdeadline⟩ := checkDeadline_runs hh
  obtain ⟨h₂, hh₂, hread⟩ := readLine_runs hh₁ hline
  have hlong : ¬ (chunk ++ (crlf ++ rest)).length < chunk.length := by
    rw [List.length_append]
    omega
  obtain ⟨_, h₃, mid, hh₃, ⟨rfl, chunk', hlength, hchunk⟩, hcopy⟩ :=
    (erases_of _).runs (spec_chunkOfSize chunk.length) (fun _ => hlong) hh₂
  obtain ⟨rfl, rfl⟩ := List.append_inj hchunk hlength.symm
  obtain ⟨_, h₄, rest', hh₄, hcrlf, hexpect⟩ := (erases_of expectCrlf).runs
    spec_expectCrlf.quiet (fun _ hnone => hnone (List.prefix_append _ _)) hh₃
  obtain rfl := List.append_cancel_left hcrlf
  refine ⟨h₄, hh₄, ?_⟩
  rw [streamChunkedBody, hdeadline, hread]
  unfold turn
  rw [hsize, exec_ok_bind, if_neg (by simpa using hmore), if_neg (by omega), hcopy, hexpect]

theorem Reaches.runs {payload : Bytes} (hrest : Reaches config written stream payload rest) (fuel : Nat)
    (hh : Ready h stream) (hfuel : stream.length < fuel) :
    ∃ fuel' h', rest.length < fuel' ∧ Ready h' rest ∧ (streamChunkedBody config fuel written).exec h =
      (streamChunkedBody config fuel' (written + payload.length)).exec h' := by
  induction hrest with
  | start => exact ⟨fuel, h, hfuel, hh, rfl⟩
  | @chunk payload rest chunk more line hrest hline hsize hmore hfits ih =>
    obtain ⟨fuel', h', hfuel', hh', hrun⟩ := ih
    rcases fuel' with _ | fuel'
    · omega
    · obtain ⟨h'', hh'', hrun'⟩ := streamChunkedBody_runs fuel' hh' hline hsize hmore hfits
      have hlength := hline.length_lt
      simp only [List.length_append] at hlength
      refine ⟨fuel', h'', by omega, hh'', ?_⟩
      rw [hrun, hrun', List.length_append, Nat.add_assoc]

theorem streamChunkedBody_last (fuel : Nat) (hh : Ready h stream) (hline : Line stream line rest)
    (hsize : chunkSize line = .ok 0) :
    ∃ h', Ready h' rest ∧ (streamChunkedBody config (fuel + 1) written).exec h =
      (skipTrailers (rest.length + 1) >>= fun _ => pure written).exec h' := by
  obtain ⟨h₁, hh₁, hdeadline⟩ := checkDeadline_runs hh
  obtain ⟨h₂, hh₂, hread⟩ := readLine_runs hh₁ hline
  obtain ⟨h₃, hh₃, hincoming⟩ := incoming_runs hh₂
  refine ⟨h₃, hh₃, ?_⟩
  rw [streamChunkedBody, hdeadline, hread]
  unfold turn
  rw [hsize, exec_ok_bind, if_pos rfl, hincoming]

theorem takes_turn_length (fuel : Nat) :
    ∃ limit, Takes (turn config (streamChunkedBody config fuel) written line) stream 0 limit fun _ _ => True := by
  refine ⟨u64Max + 2 + stream.length, ?_⟩
  apply takes_turn
  · exact fun _ => ⟨trivial, stream.length, fun _ _ => Nat.le_add_left _ _, by omega⟩
  · intro size hsize _ _
    have := le_u64Max_of_chunkSize hsize
    refine ⟨by omega, ?_⟩
    rintro chunk rest rfl rfl
    have hrest := takes_streamChunkedBody (restrained_length config (written + chunk.length) rest) fuel .start
      fun _ => le_max_right _ _
    apply hrest.trim.mono (Nat.le_refl 0) _ fun _ _ _ => trivial
    simp only [List.length_append]
    omega

theorem sizeLine_left_le {payload : Bytes} (hrest : Reaches config written stream payload (start ++ rest))
    (fuel : Nat) (hh : Ready h stream) (hfuel : stream.length < fuel) (hfree : Free crlf start) :
    ((streamChunkedBody config fuel written).exec h).2.left ≤ rest.length := by
  obtain ⟨fuel', h', hfuel', hh', hrun⟩ := Reaches.runs hrest fuel hh hfuel
  rw [hrun]
  rcases fuel' with _ | fuel'
  · omega
  · obtain ⟨h'', hh'', hdeadline⟩ := checkDeadline_runs hh'
    rw [streamChunkedBody, hdeadline]
    exact (takes_readLine (lineWithin_length _)).left_bind_le (fun _ _ _ => takes_turn_length _) hh''
      (readLine_left_le hh'' hfree)

theorem trailers_left_le {payload more : Bytes} (hmore : Reaches config written stream payload more)
    (hline : Line more line rest) (hsize : chunkSize line = .ok 0) (hrest : InTrailers rest start) (fuel : Nat)
    (hh : Ready h stream) (hfuel : stream.length < fuel) :
    ((streamChunkedBody config fuel written).exec h).2.left ≤ start.length := by
  obtain ⟨fuel', h', hfuel', hh', hrun⟩ := Reaches.runs hmore fuel hh hfuel
  rw [hrun]
  rcases fuel' with _ | fuel'
  · omega
  · obtain ⟨h'', hh'', hrun'⟩ := streamChunkedBody_last fuel' hh' hline hsize
    rw [hrun']
    refine (takes_skipTrailers _ fun _ _ => Nat.le_add_left _ _).left_bind_le (Q := fun _ _ => True) ?_ hh''
      (skipTrailers_left_le _ hh'' (Nat.lt_succ_self _) hrest)
    exact fun _ _ _ => ⟨0, takes_pure trivial⟩

theorem streamChunkedBody_whole {payload body : Bytes} (hmax : u64Max ≤ config.maxBodyBytes)
    (hrest : Reaches config written stream payload rest) (hbody : Chunked rest body) (fuel : Nat)
    (hh : Ready h stream) (hfuel : stream.length < fuel) :
    ((streamChunkedBody config fuel written).exec h).1 = .ok (written + payload.length + body.length) := by
  induction hbody generalizing payload with
  | last hline hsize htrailers =>
    obtain ⟨fuel', h', hfuel', hh', hrun⟩ := Reaches.runs hrest fuel hh hfuel
    rw [hrun]
    rcases fuel' with _ | fuel'
    · omega
    · obtain ⟨h'', hh'', hrun'⟩ := streamChunkedBody_last fuel' hh' hline hsize
      obtain ⟨_, h₃, _, _, -, hskip⟩ := (erases_skipTrailers _).runs
        (spec_skipTrailers _ (Nat.lt_succ_self _)).quiet (fun _ hnone => hnone htrailers) hh''
      rw [hrun', hskip]
      rfl
  | chunk hline hsize hmore _ ih =>
    rw [ih (hrest.chunk hline hsize hmore ((Nat.min_le_right _ _).trans hmax))]
    simp only [List.length_append, Nat.add_assoc]

end

end Metered

/-! ## Bounds -/

section

variable {config : HttpDownloadConfig} {written bound limit : Nat} {stream : Bytes}

/-- The run of the body over what is to come. -/
def bodyRun (config : HttpDownloadConfig) (written : Nat) (s : Transfer) : Except HttpDownloadError Nat × Held :=
  (Metered.streamChunkedBody config (s.packets.flatten.length + 1) written).exec ⟨s, 0⟩

/-- The run reads and holds at most `bound` bytes, and where it succeeds the sink has got the chunks. -/
structure RunWithin (config : HttpDownloadConfig) (written : Nat) (s : Transfer) (bound : Nat) : Prop where
  reads : s.packets.flatten.length ≤ (bodyRun config written s).2.left + bound
  buffers : fixedBuffers + (bodyRun config written s).2.peak ≤ bound
  returns : ∀ n, (bodyRun config written s).1 = .ok n → ∃ payload, Chunked s.packets.flatten payload ∧
    (bodyRun config written s).2.transfer.written = s.written ++ payload ∧ n = written + payload.length ∧
      n ≤ max config.maxBodyBytes written

/-- Every run over `stream`, in whatever packets it comes and wherever it breaks or times out. A stream that
never closes is met in its starts of any length. -/
def Bounded (config : HttpDownloadConfig) (written : Nat) (stream : Bytes) (bound : Nat) : Prop :=
  ∀ s : Transfer, Full s.packets → s.packets.flatten = stream → RunWithin config written s bound

theorem bounded_of_restrained (h : Restrained config written stream limit) (hfits : Fits config written stream) :
    Bounded config written stream (Metered.roomAfter limit config.maxBodyBytes 0 + fixedBuffers) := by
  rintro s hfull rfl
  have htakes := Metered.takes_streamChunkedBody h (s.packets.flatten.length + 1) .start fun _ => le_max_right _ _
  obtain ⟨taken, (htaken : _ = _ ++ (bodyRun config written s).2.transfer.packets.flatten),
    (hlength : _ ≤ Metered.roomAfter limit config.maxBodyBytes 0), -,
    (hpeak : (bodyRun config written s).2.peak ≤ max 0 (0 + taken.length)), hok⟩ := htakes ⟨s, 0⟩ hfull rfl
  obtain ⟨hresult, htransfer⟩ := Metered.erases_streamChunkedBody config (s.packets.flatten.length + 1) written ⟨s, 0⟩
  obtain ⟨payload, hadvances, hbody⟩ :=
    spec_streamChunkedBody config (s.packets.flatten.length + 1) written (Nat.lt_succ_self _) s hfull rfl
  refine ⟨?_, by omega, fun n hn => ?_⟩
  · have htotal := congrArg List.length htaken
    rw [List.length_append] at htotal
    unfold Held.left
    omega
  · have hn' := hresult.symm.trans hn
    dsimp only at hn' hbody
    rw [hn'] at hbody
    refine ⟨payload, hbody.1, ?_, hbody.2, ?_⟩
    · exact (congrArg Transfer.written htransfer).trans hadvances.written
    · by_cases hmax : u64Max ≤ config.maxBodyBytes
      · rw [hbody.2]
        exact hfits hmax payload hbody.1
      · exact hok n hn (by omega)

theorem exists_transfer (stream : Bytes) :
    ∃ s : Transfer, Full s.packets ∧ s.packets.flatten = stream ∧ Metered.Ready ⟨s, 0⟩ stream := by
  have hfull : Full ([stream].filter (!·.isEmpty)) := full_filter _
  have hflatten : ([stream].filter (!·.isEmpty)).flatten = stream := by
    rcases stream with _ | ⟨b, stream⟩
    · rfl
    · simp
  exact ⟨{ packets := [stream].filter (!·.isEmpty) }, hfull, hflatten, hfull, hflatten, rfl, rfl⟩

theorem restrained_of_bounded (h : Bounded config written stream bound) :
    Restrained config written stream bound ∧ Fits config written stream := by
  obtain ⟨s, hfull, rfl, hready⟩ := exists_transfer stream
  have hrun := h s hfull rfl
  have hfuel := Nat.lt_succ_self s.packets.flatten.length
  refine ⟨⟨?_, ?_, ?_⟩, ?_⟩
  · rintro payload _ hrest start rest rfl hfree
    have := hrest.length_le
    have := hrun.reads
    have : (bodyRun config written s).2.left ≤ _ := Metered.sizeLine_left_le hrest _ hready hfuel hfree
    simp only [List.length_append] at *
    omega
  · intro payload rest line more hrest hline hsize left hleft
    have := hrest.length_le
    have := hline.length_lt
    have := hrun.reads
    have : (bodyRun config written s).2.left ≤ _ := Metered.trailers_left_le hrest hline hsize hleft _ hready hfuel
    omega
  · intro _ payload rest hrest
    have := hrest.length_le
    have := hrun.reads
    have : (bodyRun config written s).2.left ≤ rest.length :=
      Metered.sizeLine_left_le hrest _ hready hfuel free_crlf
    omega
  · intro hmax body hbody
    have hok : (bodyRun config written s).1 = .ok _ := Metered.streamChunkedBody_whole hmax .start hbody _ hready hfuel
    obtain ⟨payload, -, -, -, hle⟩ := hrun.returns _ hok
    exact hle

/-- A class of servers is read within bounds if and only if it keeps its lines within limits. -/
theorem streamChunkedBody_bounded_iff (served : HttpDownloadConfig → Nat → Bytes → Prop) :
    (∃ bound : Nat → Nat → Nat, ∀ config written stream, served config written stream →
      Bounded config written stream (bound config.maxBodyBytes config.maxHeaderBytes)) ↔
    ∃ limit : Nat → Nat → Nat, ∀ config written stream, served config written stream →
      Restrained config written stream (limit config.maxBodyBytes config.maxHeaderBytes) ∧
        Fits config written stream := by
  constructor
  · rintro ⟨bound, hbound⟩
    exact ⟨bound, fun config written stream hserved => restrained_of_bounded (hbound config written stream hserved)⟩
  · rintro ⟨limit, hlimit⟩
    refine ⟨fun maxBodyBytes maxHeaderBytes =>
      Metered.roomAfter (limit maxBodyBytes maxHeaderBytes) maxBodyBytes 0 + fixedBuffers, ?_⟩
    intro config written stream hserved
    obtain ⟨hrestrained, hfits⟩ := hlimit config written stream hserved
    exact bounded_of_restrained hrestrained hfits

theorem not_lineWithin_digits (limit : Nat) : ¬ LineWithin limit (List.replicate (limit + 1) 0x31) := by
  intro h
  have hfree : Free crlf (List.replicate (limit + 1) 0x31) := by
    intro k _ hends
    have hmem := hends.subset (show 0x0d ∈ crlf by decide)
    rw [List.take_replicate] at hmem
    exact absurd (List.eq_of_mem_replicate hmem) (by decide)
  have hlength := h _ [] (List.append_nil _).symm hfree
  rw [List.length_replicate] at hlength
  omega

/-- A size line of digits is read for as long as it goes on. -/
theorem digits_unbounded :
    ¬ ∃ bound : Nat → Nat → Nat, ∀ config written stream,
      Bounded config written stream (bound config.maxBodyBytes config.maxHeaderBytes) := by
  rintro ⟨bound, hbound⟩
  have hdefault := hbound {} 0 (List.replicate (bound (64 * 1024 * 1024) (16 * 1024) + 1) 0x31)
  exact not_lineWithin_digits _ ((restrained_of_bounded hdefault).1.sizeLines _ _ .start)

end

end Pcloud
