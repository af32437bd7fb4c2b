import Pcloud.Proto.HttpDownload

/-!
# What a transfer takes from the stream and writes

A message is a head, up to its first blank line, and a body in one of three framings. The reads of a
transfer depend on how the stream is cut into packets, its result does not.
-/

namespace Pcloud

open Packets

/-! ## Steps of a transfer -/

/-- The error of the digest check. -/
def HttpDownloadError.isMismatch : HttpDownloadError → Bool
  | .integrityMismatch _ _ => true
  | _ => false

/-- A transfer went from `s` to `s'` and wrote `bytes`. -/
structure Transfer.Advances (s s' : Transfer) (bytes : Bytes) : Prop where
  written : s'.written = s.written ++ bytes
  hashed : s'.hashed = s.hashed ++ bytes
  full : Full s'.packets
  broken : s'.broken = s.broken
  checks : s.checks = none → s'.checks = none

theorem Transfer.Advances.trans {s s' s'' : Transfer} {bytes more : Bytes} (h : s.Advances s' bytes)
    (h' : s'.Advances s'' more) : s.Advances s'' (bytes ++ more) := by
  refine ⟨?_, ?_, h'.full, h'.broken.trans h.broken, fun hchecks => h'.checks (h.checks hchecks)⟩
  · rw [h'.written, h.written, List.append_assoc]
  · rw [h'.hashed, h.hashed, List.append_assoc]

/-- The stream does not break and no deadline passes. -/
def Transfer.Faultless (s : Transfer) : Prop := s.broken = false ∧ s.checks = none

theorem Transfer.Advances.faultless {s s' : Transfer} {bytes : Bytes} (h : s.Advances s' bytes) (hs : s.Faultless) :
    s'.Faultless :=
  ⟨h.broken.trans hs.1, h.checks hs.2⟩

namespace Fetch

variable {α β : Type} {x : Fetch α} {f : α → Fetch β} {stream : Bytes}
variable {Fails Fails' : HttpDownloadError → Prop} {Q Q' : Bytes → Bytes → α → Prop}

theorem exec_bind (x : Fetch α) (f : α → Fetch β) (s : Transfer) :
    (x >>= f).exec s = match x.exec s with
      | (.ok a, s) => (f a).exec s
      | (.error e, s) => (.error e, s) := by
  show (ExceptT.bindCont f (x.run s).1) (x.run s).2 = _
  unfold exec
  rcases x.run s with ⟨e | a, s'⟩
  · rfl
  · rfl

/-- With `stream` to come, `x` gives the same to the sink and to the hasher. `Q` says what is left of the
stream, what is written and what is returned, and `Fails` how `x` can fail where nothing goes wrong outside.
Digests are checked elsewhere. -/
def Spec (x : Fetch α) (stream : Bytes) (Fails : HttpDownloadError → Prop) (Q : Bytes → Bytes → α → Prop) : Prop :=
  ∀ s : Transfer, Full s.packets → s.packets.flatten = stream →
    ∃ bytes, s.Advances (x.exec s).2 bytes ∧
      match (x.exec s).1 with
      | .ok a => Q (x.exec s).2.packets.flatten bytes a
      | .error e => e.isMismatch = false ∧ (s.Faultless → Fails e)

theorem Spec.mono (h : Spec x stream Fails Q) (hQ : ∀ rest bytes a, Q rest bytes a → Q' rest bytes a)
    (hFails : ∀ e, Fails e → Fails' e) : Spec x stream Fails' Q' := by
  intro s hfull hstream
  obtain ⟨bytes, hadvances, hresult⟩ := h s hfull hstream
  refine ⟨bytes, hadvances, ?_⟩
  rcases hx : (x.exec s).1 with e | a
  · rw [hx] at hresult
    exact ⟨hresult.1, fun hs => hFails e (hresult.2 hs)⟩
  · rw [hx] at hresult
    exact hQ _ _ _ hresult

theorem Spec.bind {R : Bytes → Bytes → β → Prop} (h : Spec x stream Fails Q)
    (hf : ∀ mid bytes a, Q mid bytes a → Spec (f a) mid Fails fun rest more b => R rest (bytes ++ more) b) :
    Spec (x >>= f) stream Fails R := by
  intro s hfull hstream
  obtain ⟨bytes, hadvances, hresult⟩ := h s hfull hstream
  rw [exec_bind]
  rcases hx : x.exec s with ⟨e | a, s'⟩
  · rw [hx] at hadvances hresult
    exact ⟨bytes, hadvances, hresult⟩
  · rw [hx] at hadvances hresult
    obtain ⟨more, hadvances', hresult'⟩ := hf _ _ _ hresult s' hadvances.full rfl
    refine ⟨bytes ++ more, hadvances.trans hadvances', ?_⟩
    dsimp only
    rcases hfa : ((f a).exec s').1 with e | b
    · rw [hfa] at hresult'
      exact ⟨hresult'.1, fun hs => hresult'.2 (hadvances.faultless hs)⟩
    · rw [hfa] at hresult'
      exact hresult'

theorem Spec.quiet {P : Bytes → α → Prop} (h : Spec x stream Fails fun rest bytes a => bytes = [] ∧ P rest a) :
    Spec x stream Fails fun rest _ a => P rest a :=
  h.mono (fun _ _ _ h => h.2) fun _ h => h

theorem Spec.quiet_bind {P : Bytes → α → Prop} {R : Bytes → Bytes → β → Prop}
    (h : Spec x stream Fails fun rest bytes a => bytes = [] ∧ P rest a)
    (hf : ∀ mid a, P mid a → Spec (f a) mid Fails R) : Spec (x >>= f) stream Fails R := by
  apply h.bind
  rintro mid bytes a ⟨rfl, ha⟩
  exact hf mid a ha

theorem spec_pure {a : α} (h : Q stream [] a) : Spec (pure a) stream Fails Q := by
  intro s hfull hstream
  refine ⟨[], ⟨(List.append_nil _).symm, (List.append_nil _).symm, hfull, rfl, id⟩, ?_⟩
  show Q s.packets.flatten [] a
  rwa [hstream]

theorem spec_throw {e : HttpDownloadError} (h : Fails e) (hmismatch : e.isMismatch = false := by rfl) :
    Spec (throw e) stream Fails Q := by
  intro s hfull hstream
  exact ⟨[], ⟨(List.append_nil _).symm, (List.append_nil _).symm, hfull, rfl, id⟩, hmismatch, fun _ => h⟩

theorem spec_liftExcept {r : Except HttpDownloadError α} (hok : ∀ a, r = .ok a → Q stream [] a)
    (herror : ∀ e, r = .error e → e.isMismatch = false ∧ Fails e) : Spec (liftM r) stream Fails Q := by
  rcases r with e | a
  · exact spec_throw (herror e rfl).2 (herror e rfl).1
  · exact spec_pure (hok a rfl)

theorem exec_read (want : Nat) (s : Transfer) :
    (read want).exec s = if s.packets.isEmpty && s.broken then (.error .io, s)
      else (.ok (Packets.read want s.packets).1, { s with packets := (Packets.read want s.packets).2 }) := by
  unfold read
  rw [exec_bind]
  show (if _ then _ else _ : Fetch Bytes).exec s = _
  split_ifs
  · rfl
  · rfl

theorem spec_read (want : Nat) : Spec (read want) stream Fails fun rest bytes a =>
    bytes = [] ∧ stream = a ++ rest ∧ a.length ≤ want ∧ (a = [] → want = 0 ∨ stream = []) := by
  intro s hfull hstream
  rw [exec_read]
  split_ifs with hbroken
  · refine ⟨[], ⟨(List.append_nil _).symm, (List.append_nil _).symm, hfull, rfl, id⟩, ?_⟩
    refine ⟨rfl, ?_⟩
    rintro ⟨hnot, -⟩
    simp [hnot] at hbroken
  · have hquiet : s.Advances { s with packets := (Packets.read want s.packets).2 } [] :=
      ⟨(List.append_nil _).symm, (List.append_nil _).symm, hfull.read, rfl, id⟩
    refine ⟨[], hquiet, rfl, ?_, length_read_le want _, ?_⟩
    · rw [← hstream]
      exact (read_append want _).symm
    · intro hempty
      by_contra hnot
      push Not at hnot
      exact hfull.read_ne_nil (hstream ▸ hnot.2) (by omega) hempty

theorem spec_readByte : Spec (read 1) stream Fails fun rest bytes a =>
    bytes = [] ∧ ((a = [] ∧ stream = []) ∨ ∃ b, a = [b] ∧ stream = [b] ++ rest) := by
  apply (spec_read 1).mono _ fun _ h => h
  rintro rest bytes a ⟨hbytes, hstream, hlength, hempty⟩
  refine ⟨hbytes, ?_⟩
  rcases a with _ | ⟨b, _ | ⟨b', more⟩⟩
  · exact .inl ⟨rfl, (hempty rfl).resolve_left one_ne_zero⟩
  · exact .inr ⟨b, rfl, hstream⟩
  · simp at hlength

theorem spec_checkDeadline : Spec checkDeadline stream Fails fun rest bytes _ => bytes = [] ∧ rest = stream := by
  rintro ⟨packets, broken, _ | _ | checks, written, hashed⟩ hfull hstream
  · exact ⟨[], ⟨(List.append_nil _).symm, (List.append_nil _).symm, hfull, rfl, id⟩, rfl, hstream⟩
  · refine ⟨[], ⟨(List.append_nil _).symm, (List.append_nil _).symm, hfull, rfl, id⟩, rfl, ?_⟩
    rintro ⟨-, hnone⟩
    cases hnone
  · refine ⟨[], ⟨(List.append_nil _).symm, (List.append_nil _).symm, hfull, rfl, ?_⟩, rfl, hstream⟩
    rintro ⟨⟩

theorem spec_emit (written : Bytes) :
    Spec (emit written) stream Fails fun rest bytes _ => written = bytes ∧ rest = stream := by
  intro s hfull hstream
  exact ⟨written, ⟨rfl, rfl, hfull, rfl, id⟩, rfl, hstream⟩

theorem spec_copy {want : Nat} {e : HttpDownloadError} {next : Bytes → Fetch α} (hwant : 0 < want)
    (hend : stream = [] → Fails e) (hmismatch : e.isMismatch = false)
    (hnext : ∀ bytes mid, stream = bytes ++ mid → 0 < bytes.length → bytes.length ≤ want →
      Spec (next bytes) mid Fails fun rest more a => Q rest (bytes ++ more) a) :
    Spec (do
      checkDeadline
      let bytes ← read want
      if bytes.isEmpty then throw e
      emit bytes
      next bytes) stream Fails Q := by
  apply spec_checkDeadline.quiet_bind
  rintro stream _ rfl
  apply (spec_read want).quiet_bind
  rintro mid bytes ⟨hstream, hlength, hempty⟩
  split_ifs with hnone
  · refine spec_throw (hend ?_) hmismatch
    rcases hempty (List.isEmpty_iff.mp hnone) with hzero | hstream
    · omega
    · exact hstream
  · apply (spec_emit bytes).bind
    rintro _ _ _ ⟨rfl, rfl⟩
    exact hnext bytes _ hstream (List.length_pos_iff.mpr (mt List.isEmpty_iff.mpr hnone)) hlength

theorem spec_incoming :
    Spec incoming stream Fails fun rest bytes n => bytes = [] ∧ rest = stream ∧ n = stream.length := by
  intro s hfull hstream
  refine ⟨[], ⟨?_, ?_, hfull, rfl, id⟩, rfl, hstream, congrArg List.length hstream⟩
  · exact (List.append_nil _).symm
  · exact (List.append_nil _).symm

end Fetch

open Fetch

variable {stream payload rest rest' body body' : Bytes} {Fails : HttpDownloadError → Prop}

/-! ## Lines -/

/-- The stream goes on with a line, its end left out, and then with `rest`. -/
def Line (stream : Bytes) (line : String) (rest : Bytes) : Prop :=
  ∃ bytes, stream = bytes ++ rest ∧ EndsAt crlf bytes ∧ fromUtf8 (bytes.take (bytes.length - 2)) = some line

theorem Line.unique {line line' : String} (h : Line stream line rest) (h' : Line stream line' rest') :
    line = line' ∧ rest = rest' := by
  obtain ⟨bytes, hstream, hends, hline⟩ := h
  obtain ⟨bytes', hstream', hends', hline'⟩ := h'
  obtain ⟨rfl, rfl⟩ := hends.unique hends' (hstream.symm.trans hstream')
  exact ⟨Option.some.inj (hline.symm.trans hline'), rfl⟩

theorem Line.length_lt {line : String} (h : Line stream line rest) : rest.length < stream.length := by
  obtain ⟨bytes, rfl, hends, -⟩ := h
  have hlength := hends.1.length_le
  have hcrlf : crlf.length = 2 := by decide
  rw [List.length_append]
  omega

theorem spec_readLineBytes (fuel : Nat) {bytes stream : Bytes} (hfree : Free crlf bytes)
    (hfuel : stream.length < fuel) :
    Spec (readLineBytes fuel bytes) stream
      (fun _ => ¬ ∃ line rest, bytes ++ stream = line ++ rest ∧ EndsAt crlf line)
      fun rest written line => written = [] ∧ bytes ++ stream = line ++ rest ∧ EndsAt crlf line := by
  induction fuel generalizing bytes stream with
  | zero => omega
  | succ fuel ih =>
    unfold readLineBytes
    apply spec_readByte.quiet_bind
    rintro mid _ (⟨rfl, rfl⟩ | ⟨b, rfl, rfl⟩)
    · -- The stream is at its end, and no mark has come.
      refine spec_throw ?_
      rintro ⟨line, rest, heq, hends⟩
      have hlt := hfree.lt_length hends.1 heq
      have hlength := congrArg List.length heq
      simp only [List.length_append, List.length_nil] at hlength
      omega
    · rw [← List.append_assoc]
      dsimp only [List.isEmpty_cons]
      rw [if_neg Bool.false_ne_true]
      split_ifs with hends
      · exact spec_pure ⟨rfl, rfl, hfree.endsAt hends⟩
      · apply ih (hfree.snoc hends)
        simp at hfuel
        omega

theorem free_crlf : Free crlf [] := free_nil (by decide)

theorem spec_readLine : Spec readLine stream (fun _ => ¬ ∃ line rest, Line stream line rest)
    fun rest bytes line => bytes = [] ∧ Line stream line rest := by
  unfold readLine
  apply spec_incoming.quiet_bind
  rintro _ _ ⟨rfl, rfl⟩
  apply Spec.quiet_bind (P := fun rest bytes => _ = bytes ++ rest ∧ EndsAt crlf bytes)
  · apply (spec_readLineBytes _ free_crlf (Nat.lt_succ_self _)).mono
    · exact fun _ _ _ h => h
    · rintro e hnone ⟨line, rest, bytes, hstream, hends, -⟩
      exact hnone ⟨bytes, rest, hstream, hends⟩
  · rintro rest bytes ⟨hstream, hends⟩
    rcases hline : fromUtf8 (bytes.take (bytes.length - 2)) with _ | line
    · refine spec_throw ?_
      rintro ⟨line, rest', bytes', hstream', hends', hline'⟩
      obtain ⟨rfl, -⟩ := hends.unique hends' (hstream.symm.trans hstream')
      rw [hline] at hline'
      cases hline'
    · exact spec_pure ⟨rfl, bytes, hstream, hends, hline⟩

theorem spec_readTwo : Spec readTwo stream Fails
    fun rest written bytes => written = [] ∧ stream = bytes ++ rest ∧ bytes.length = min 2 stream.length := by
  unfold readTwo
  apply (spec_read 2).quiet_bind
  rintro mid first ⟨rfl, hfirst, hempty⟩
  split_ifs with hone
  · apply (spec_read 1).quiet_bind
    rintro rest second ⟨rfl, hsecond, hempty'⟩
    refine spec_pure ⟨rfl, (List.append_assoc ..).symm, ?_⟩
    rcases second with _ | ⟨b, second⟩
    · rcases hempty' rfl with hzero | hrest
      · omega
      · simp [hone, hrest]
    · simp only [List.length_append, List.length_cons] at hsecond ⊢
      omega
  · refine spec_pure ⟨rfl, rfl, ?_⟩
    rcases first with _ | ⟨b, first⟩
    · rcases hempty rfl with hzero | hstream
      · omega
      · simp [hstream]
    · simp only [List.length_append, List.length_cons] at hfirst hone ⊢
      omega

theorem spec_expectCrlf : Spec expectCrlf stream (fun _ => ¬ crlf <+: stream)
    fun rest bytes _ => bytes = [] ∧ stream = crlf ++ rest := by
  have hcrlf : crlf.length = 2 := by decide
  unfold expectCrlf
  apply spec_readTwo.quiet_bind
  rintro rest bytes ⟨rfl, hlength⟩
  split_ifs with hshort hne
  · refine spec_throw fun hstarts => ?_
    have := hstarts.length_le
    omega
  · refine spec_throw ?_
    rintro ⟨more, heq⟩
    have htwo : crlf.length = bytes.length := by
      rw [hcrlf]
      have := congrArg List.length heq
      simp only [List.length_append] at this hlength
      omega
    exact hne (List.append_inj heq htwo).1.symm
  · exact spec_pure ⟨rfl, by rw [not_not.mp hne]⟩

/-! ## Bodies -/

/-- Lines up to an empty one. -/
inductive Trailers : Bytes → Prop
  | last {stream rest : Bytes} (hline : Line stream "" rest) : Trailers stream
  | line {stream rest : Bytes} {line : String} (hline : Line stream line rest) (hmore : line ≠ "")
      (hrest : Trailers rest) : Trailers stream

/-- The stream goes on with `body` in chunks. -/
inductive Chunked : Bytes → Bytes → Prop
  | last {stream rest : Bytes} {line : String} (hline : Line stream line rest) (hsize : chunkSize line = .ok 0)
      (htrailers : Trailers rest) : Chunked stream []
  | chunk {stream rest chunk body : Bytes} {line : String} (hline : Line stream line (chunk ++ (crlf ++ rest)))
      (hsize : chunkSize line = .ok chunk.length) (hmore : chunk ≠ []) (hrest : Chunked rest body) :
      Chunked stream (chunk ++ body)

theorem Chunked.line (h : Chunked stream body) : ∃ line rest, Line stream line rest := by
  rcases h with ⟨hline, -⟩ | ⟨hline, -⟩
  · exact ⟨_, _, hline⟩
  · exact ⟨_, _, hline⟩

section

variable {line : String} {size : Nat}

theorem Chunked.has_size (h : Chunked stream body) (hline : Line stream line rest) :
    ∃ size, chunkSize line = .ok size := by
  rcases h with ⟨hline', hsize, -⟩ | ⟨hline', hsize, -⟩
  · exact ⟨_, (hline.unique hline').1 ▸ hsize⟩
  · exact ⟨_, (hline.unique hline').1 ▸ hsize⟩

theorem Chunked.trailers (h : Chunked stream body) (hline : Line stream line rest) (hsize : chunkSize line = .ok 0) :
    Trailers rest ∧ body = [] := by
  rcases h with ⟨hline', -, htrailers⟩ | ⟨hline', hsize', hmore, -⟩
  · obtain ⟨rfl, rfl⟩ := hline.unique hline'
    exact ⟨htrailers, rfl⟩
  · obtain ⟨rfl, -⟩ := hline.unique hline'
    rw [hsize, Except.ok.injEq] at hsize'
    exact absurd (List.length_eq_zero_iff.mp hsize'.symm) hmore

theorem Chunked.first_chunk (h : Chunked stream body) (hline : Line stream line rest)
    (hsize : chunkSize line = .ok size) (hmore : size ≠ 0) :
    ∃ chunk more body', chunk.length = size ∧ rest = chunk ++ (crlf ++ more) ∧ body = chunk ++ body' ∧
      Chunked more body' := by
  rcases h with ⟨hline', hsize', -⟩ | ⟨hline', hsize', -, hrest⟩
  · obtain ⟨rfl, -⟩ := hline.unique hline'
    rw [hsize, Except.ok.injEq] at hsize'
    exact absurd hsize' hmore
  · obtain ⟨rfl, rfl⟩ := hline.unique hline'
    rw [hsize, Except.ok.injEq] at hsize'
    exact ⟨_, _, _, hsize'.symm, rfl, rfl, hrest⟩

end

theorem Chunked.unique (h : Chunked stream body) (h' : Chunked stream body') : body = body' := by
  induction h generalizing body' with
  | last hline hsize _ => exact (h'.trailers hline hsize).2.symm
  | chunk hline hsize hmore _ ih =>
    obtain ⟨chunk', more', body', hlength, heq, rfl, hrest'⟩ :=
      h'.first_chunk hline hsize (mt List.length_eq_zero_iff.mp hmore)
    obtain ⟨rfl, hrest⟩ := List.append_inj heq hlength.symm
    rw [List.append_cancel_left_eq] at hrest
    subst hrest
    rw [ih hrest']

theorem isMismatch_of_chunkSize {line : String} {e : HttpDownloadError} (h : chunkSize line = .error e) :
    e.isMismatch = false := by
  unfold chunkSize at h
  dsimp only at h
  split at h
  · cases h
    rfl
  · cases h

theorem spec_copyLength (length fuel written : Nat) (hfuel : length - written < fuel) :
    Spec (copyLength length fuel written) stream (fun _ => stream.length < length - written) fun rest bytes n =>
      stream = bytes ++ rest ∧ bytes.length = length - written ∧ n = written + bytes.length := by
  induction fuel generalizing written stream with
  | zero => omega
  | succ fuel ih =>
    unfold copyLength
    split_ifs with hmore
    · apply spec_copy (lt_min (by omega) (by decide)) _ rfl
      · rintro bytes mid rfl hpos hbytes
        apply (ih (written + bytes.length) (by omega)).mono
        · rintro rest more n ⟨rfl, hlength, rfl⟩
          simp only [List.length_append, List.append_assoc, true_and]
          omega
        · intro e hshort
          rw [List.length_append]
          omega
      · rintro rfl
        rw [List.length_nil]
        omega
    · exact spec_pure ⟨rfl, by simp; omega, rfl⟩

theorem spec_copyChunk (fuel remaining written : Nat) (hfuel : remaining < fuel) :
    Spec (copyChunk fuel remaining written) stream (fun _ => stream.length < remaining) fun rest bytes n =>
      stream = bytes ++ rest ∧ bytes.length = remaining ∧ n = written + bytes.length := by
  induction fuel generalizing remaining written stream with
  | zero => omega
  | succ fuel ih =>
    unfold copyChunk
    split_ifs with hmore
    · apply spec_copy (lt_min hmore (by decide)) _ rfl
      · rintro bytes mid rfl hpos hbytes
        apply (ih (remaining - bytes.length) (written + bytes.length) (by omega)).mono
        · rintro rest more n ⟨rfl, hlength, rfl⟩
          simp only [List.length_append, List.append_assoc, true_and]
          omega
        · intro e hshort
          rw [List.length_append]
          omega
      · rintro rfl
        exact hmore
    · exact spec_pure ⟨rfl, by simp; omega, rfl⟩

theorem spec_copyToEnd (config : HttpDownloadConfig) (before fuel written : Nat) (hfuel : stream.length < fuel) :
    Spec (copyToEnd config before fuel written) stream
      (fun _ => config.maxBodyBytes < before + written + stream.length)
      fun _ bytes n => stream = bytes ∧ n = written + bytes.length := by
  induction fuel generalizing written stream with
  | zero => omega
  | succ fuel ih =>
    unfold copyToEnd
    apply spec_checkDeadline.quiet_bind
    rintro _ _ rfl
    apply (spec_read _).quiet_bind
    rintro mid bytes ⟨rfl, hbytes, hempty⟩
    split_ifs with hnone htoo
    · rcases hempty (List.isEmpty_iff.mp hnone) with hzero | hstream
      · exact absurd hzero (by decide)
      · exact spec_pure ⟨hstream, rfl⟩
    · refine spec_throw ?_
      rw [List.length_append]
      unfold satAdd at htoo
      omega
    · apply (spec_emit bytes).bind
      rintro _ _ _ ⟨rfl, rfl⟩
      have hpos := List.length_pos_iff.mpr (mt List.isEmpty_iff.mpr hnone)
      rw [List.length_append] at hfuel
      apply (ih (written + bytes.length) (by omega)).mono
      · rintro _ more n ⟨rfl, rfl⟩
        rw [List.length_append, Nat.add_assoc]
        exact ⟨rfl, rfl⟩
      · intro e hlarge
        rw [List.length_append]
        omega

theorem spec_skipTrailers (fuel : Nat) (hfuel : stream.length < fuel) :
    Spec (skipTrailers fuel) stream (fun _ => ¬ Trailers stream) fun _ bytes _ => bytes = [] ∧ Trailers stream := by
  induction fuel generalizing stream with
  | zero => omega
  | succ fuel ih =>
    unfold skipTrailers
    apply Spec.quiet_bind (P := fun rest line => Line stream line rest)
    · apply spec_readLine.mono fun _ _ _ h => h
      rintro e hnone (⟨hline⟩ | ⟨hline, -⟩)
      · exact hnone ⟨_, _, hline⟩
      · exact hnone ⟨_, _, hline⟩
    · intro rest line hline
      have hlength := hline.length_lt
      split_ifs with hempty
      · obtain rfl : line = "" := by simpa using hempty
        exact spec_pure ⟨rfl, .last hline⟩
      · have hmore : line ≠ "" := by simpa using hempty
        apply (ih (by omega)).mono
        · rintro _ _ _ ⟨rfl, hrest⟩
          exact ⟨rfl, .line hline hmore hrest⟩
        · rintro e hnone (⟨hline'⟩ | ⟨hline', -, hrest⟩)
          · exact hmore (hline.unique hline').1
          · obtain ⟨-, rfl⟩ := hline.unique hline'
            exact hnone hrest

theorem spec_chunk {size written : Nat} {next : Nat → Fetch Nat} {Q : Bytes → Bytes → Nat → Prop}
    (hfails : (¬ ∃ chunk more, chunk.length = size ∧ stream = chunk ++ (crlf ++ more)) → ∀ e, Fails e)
    (hnext : ∀ chunk more, chunk.length = size → stream = chunk ++ (crlf ++ more) →
      Spec (next (written + chunk.length)) more Fails fun rest bytes n => Q rest (chunk ++ bytes) n) :
    Spec (do
      let written ← copyChunk (size + 1) size written
      expectCrlf
      next written) stream Fails Q := by
  apply ((spec_copyChunk _ _ _ (Nat.lt_succ_self _)).mono (fun _ _ _ h => h) _).bind
  · rintro mid chunk n ⟨rfl, rfl, rfl⟩
    apply Spec.quiet_bind (P := fun more _ => mid = crlf ++ more)
    · apply spec_expectCrlf.mono fun _ _ _ h => h
      intro e hnone
      apply hfails
      rintro ⟨chunk', more, hlength, heq⟩
      obtain ⟨rfl, rfl⟩ := List.append_inj heq.symm hlength
      exact hnone (List.prefix_append _ _)
    · rintro more _ rfl
      exact hnext chunk more rfl rfl
  · intro e hshort
    apply hfails
    rintro ⟨chunk, more, rfl, rfl⟩
    rw [List.length_append] at hshort
    omega

theorem spec_streamChunkedBody (config : HttpDownloadConfig) (fuel written : Nat) (hfuel : stream.length < fuel) :
    Spec (streamChunkedBody config fuel written) stream
      (fun _ => ¬ ∃ body, Chunked stream body ∧ written + body.length ≤ config.maxBodyBytes)
      fun _ bytes n => Chunked stream bytes ∧ n = written + bytes.length := by
  induction fuel generalizing written stream with
  | zero => omega
  | succ fuel ih =>
    unfold streamChunkedBody
    apply spec_checkDeadline.quiet_bind
    rintro stream _ rfl
    apply Spec.quiet_bind (P := fun rest line => Line stream line rest)
    · apply spec_readLine.mono fun _ _ _ h => h
      rintro e hnone ⟨body, hbody, -⟩
      exact hnone hbody.line
    · intro rest line hline
      apply Spec.quiet_bind (P := fun rest' size => rest' = rest ∧ chunkSize line = .ok size)
      · apply spec_liftExcept
        · exact fun size hsize => ⟨rfl, rfl, hsize⟩
        · intro e hsize
          refine ⟨isMismatch_of_chunkSize hsize, ?_⟩
          rintro ⟨body, hbody, -⟩
          obtain ⟨size, hsize'⟩ := hbody.has_size hline
          rw [hsize] at hsize'
          cases hsize'
      · rintro rest size ⟨rfl, hsize⟩
        split_ifs with hlast hlarge
        · subst hlast
          apply spec_incoming.quiet_bind
          rintro rest _ ⟨rfl, rfl⟩
          apply Spec.quiet_bind (P := fun _ _ => Trailers rest)
          · apply (spec_skipTrailers _ (Nat.lt_succ_self _)).mono fun _ _ _ h => h
            rintro e hnone ⟨body, hbody, -⟩
            exact hnone (hbody.trailers hline hsize).1
          · rintro _ _ htrailers
            exact spec_pure ⟨.last hline hsize htrailers, rfl⟩
        · refine spec_throw ?_
          rintro ⟨body, hbody, hfits⟩
          obtain ⟨chunk, more, body', rfl, -, rfl, -⟩ := hbody.first_chunk hline hsize hlast
          rw [List.length_append] at hfits
          unfold satAdd at hlarge
          omega
        · apply spec_chunk
          · rintro hnone e ⟨body, hbody, -⟩
            obtain ⟨chunk, more, -, hlength, heq, -⟩ := hbody.first_chunk hline hsize hlast
            exact hnone ⟨chunk, more, hlength, heq⟩
          · rintro chunk more rfl rfl
            have hlength := hline.length_lt
            simp only [List.length_append] at hlength
            have hmore : chunk ≠ [] := fun hempty => hlast (by rw [hempty, List.length_nil])
            apply (ih (written + chunk.length) (by omega)).mono
            · rintro _ bytes n ⟨hbytes, rfl⟩
              exact ⟨.chunk hline hsize hmore hbytes, by rw [List.length_append, Nat.add_assoc]⟩
            · rintro e hnone ⟨body, hbody, hfits⟩
              obtain ⟨chunk', more', body', hlength, heq, rfl, hrest⟩ := hbody.first_chunk hline hsize hlast
              obtain ⟨rfl, htail⟩ := List.append_inj heq.symm hlength
              rw [List.append_cancel_left_eq] at htail
              subst htail
              rw [List.length_append] at hfits
              exact hnone ⟨body', hrest, by omega⟩

/-- The stream goes on with `body`, framed as the head says. -/
def Framed (headers : HeaderParse) (stream body : Bytes) : Prop :=
  if headers.transferChunked then Chunked stream body
  else match headers.contentLength with
    | some length => body <+: stream ∧ body.length = length
    | none => stream = body

theorem Framed.unique {headers : HeaderParse} (h : Framed headers stream body) (h' : Framed headers stream body') :
    body = body' := by
  rcases headers with ⟨_ | length, _⟩
  all_goals
    unfold Framed at h h'
    split_ifs at h h'
  · exact h.unique h'
  · exact h.symm.trans h'
  · exact h.unique h'
  · dsimp only at h h'
    have hlength := h.2.trans h'.2.symm
    exact (List.prefix_of_prefix_length_le h.1 h'.1 hlength.le).eq_of_length hlength

theorem spec_copyBody (config : HttpDownloadConfig) (headers : HeaderParse) :
    Spec (copyBody config headers) stream
      (fun _ => ¬ ∃ body, Framed headers stream body ∧ body.length ≤ config.maxBodyBytes)
      fun _ bytes n => Framed headers stream bytes ∧ n = bytes.length := by
  unfold copyBody Framed
  split_ifs with hchunked
  · apply spec_incoming.quiet_bind
    rintro stream _ ⟨rfl, rfl⟩
    simpa using spec_streamChunkedBody config (stream.length + 1) 0 (Nat.lt_succ_self _)
  · rcases headers.contentLength with _ | length
    · apply spec_incoming.quiet_bind
      rintro stream _ ⟨rfl, rfl⟩
      apply (spec_copyToEnd config 0 (stream.length + 1) 0 (Nat.lt_succ_self _)).mono
      · rintro _ bytes n ⟨rfl, rfl⟩
        exact ⟨rfl, Nat.zero_add _⟩
      · rintro e hlarge ⟨body, rfl, hfits⟩
        omega
    · apply (spec_copyLength length (length + 1) 0 (Nat.lt_succ_self _)).mono
      · rintro rest bytes n ⟨rfl, hlength, rfl⟩
        exact ⟨⟨List.prefix_append _ _, hlength⟩, Nat.zero_add _⟩
      · rintro e hshort ⟨body, ⟨hstarts, rfl⟩, -⟩
        have := hstarts.length_le
        omega

/-! ## Heads and messages -/

section

variable (parseRetryAfter : String → Option Nat) {max : Nat} {headers headers' : HeaderParse}

/-- The stream goes on with a head of at most `max` bytes, and then with `rest`. -/
def Head (max : Nat) (stream : Bytes) (headers : HeaderParse) (rest : Bytes) : Prop :=
  ∃ head, stream = head ++ rest ∧ EndsAt endOfHead head ∧ head.length ≤ max ∧
    parseHead parseRetryAfter head = .ok headers

variable {parseRetryAfter}

theorem Head.unique (h : Head parseRetryAfter max stream headers rest)
    (h' : Head parseRetryAfter max stream headers' rest') : headers = headers' ∧ rest = rest' := by
  obtain ⟨head, hstream, hends, -, hparse⟩ := h
  obtain ⟨head', hstream', hends', -, hparse'⟩ := h'
  obtain ⟨rfl, rfl⟩ := hends.unique hends' (hstream.symm.trans hstream')
  exact ⟨Except.ok.inj (hparse.symm.trans hparse'), rfl⟩

theorem isMismatch_of_parseStatus {line : List Char} {e : HttpDownloadError} (h : parseStatus line = .error e) :
    e.isMismatch = false := by
  unfold parseStatus at h
  repeat' split at h
  all_goals
    cases h
    try rfl

theorem isMismatch_of_parseHeaderLine {line : List Char} {e : HttpDownloadError}
    (h : parseHeaderLine headers line = .error e) : e.isMismatch = false := by
  unfold parseHeaderLine at h
  split at h
  · cases h
  · dsimp only at h
    -- Only a content length can be wrong.
    split at h
    · split at h
      · cases h
        rfl
      · cases h
    · split_ifs at h

theorem isMismatch_of_parseHead {head : Bytes} {e : HttpDownloadError} (h : parseHead parseRetryAfter head = .error e) :
    e.isMismatch = false := by
  have hlines : ∀ (lines : List (List Char)) (headers : HeaderParse),
      lines.foldlM parseHeaderLine headers = .error e → e.isMismatch = false := by
    intro lines
    induction lines with
    | nil => simp [pure, Except.pure]
    | cons line lines ih =>
      intro headers hfold
      rw [List.foldlM_cons] at hfold
      rcases hline : parseHeaderLine headers line with e' | headers'
      · rw [hline] at hfold
        cases hfold
        exact isMismatch_of_parseHeaderLine hline
      · rw [hline] at hfold
        exact ih headers' hfold
  unfold parseHead at h
  split at h
  · cases h
    rfl
  · split at h
    · cases h
      rfl
    · rename_i statusLine lines _
      rcases hstatus : parseStatus statusLine with e' | status
      · rw [hstatus] at h
        cases h
        exact isMismatch_of_parseStatus hstatus
      · rw [hstatus] at h
        exact hlines lines _ h

theorem isMismatch_statusError (headers : HeaderParse) : (statusError headers).isMismatch = false := by
  unfold statusError
  split
  · split_ifs <;> rfl
  · rfl

theorem spec_readHead (fuel : Nat) {buffer stream : Bytes} (hfree : Free endOfHead buffer)
    (hbuffer : buffer.length ≤ max) (hfuel : max < fuel + buffer.length) :
    Spec (readHead max fuel buffer) stream
      (fun _ => ¬ ∃ head rest, buffer ++ stream = head ++ rest ∧ EndsAt endOfHead head ∧ head.length ≤ max)
      fun rest bytes head =>
        bytes = [] ∧ buffer ++ stream = head ++ rest ∧ EndsAt endOfHead head ∧ head.length ≤ max := by
  induction fuel generalizing buffer stream with
  | zero => omega
  | succ fuel ih =>
    unfold readHead
    apply spec_readByte.quiet_bind
    rintro mid _ (⟨rfl, rfl⟩ | ⟨b, rfl, rfl⟩)
    · -- The stream is at its end, and no head is.
      refine spec_throw ?_
      rintro ⟨head, rest, heq, hends, -⟩
      have hlt := hfree.lt_length hends.1 heq
      have hlength := congrArg List.length heq
      simp only [List.length_append, List.length_nil] at hlength
      omega
    · have hlength : (buffer ++ [b]).length = buffer.length + 1 := List.length_append
      rw [← List.append_assoc]
      dsimp only [List.isEmpty_cons]
      rw [if_neg Bool.false_ne_true]
      split_ifs with hlarge hends
      · refine spec_throw ?_
        rintro ⟨head, rest, heq, hends, hfits⟩
        have hlt := hfree.lt_length hends.1 ((List.append_assoc ..).symm.trans heq)
        omega
      · exact spec_pure ⟨rfl, rfl, hfree.endsAt hends, by omega⟩
      · exact ih (hfree.snoc hends) (by omega) (by omega)

theorem spec_readHeaders : Spec (readHeaders parseRetryAfter max) stream
    (fun _ => ¬ ∃ headers rest, Head parseRetryAfter max stream headers rest)
    fun rest bytes headers => bytes = [] ∧ Head parseRetryAfter max stream headers rest := by
  unfold readHeaders
  apply Spec.quiet_bind
    (P := fun rest head => stream = head ++ rest ∧ EndsAt endOfHead head ∧ head.length ≤ max)
  · apply (spec_readHead _ (free_nil (by decide)) (Nat.zero_le _) (Nat.lt_succ_self _)).mono fun _ _ _ h => h
    rintro e hnone ⟨headers, rest, head, hstream, hends, hlength, -⟩
    exact hnone ⟨head, rest, hstream, hends, hlength⟩
  · rintro rest head ⟨hstream, hends, hlength⟩
    rcases hparse : parseHead parseRetryAfter head with e | headers
    · refine spec_throw ?_ (isMismatch_of_parseHead hparse)
      rintro ⟨headers, rest', head', hstream', hends', -, hparse'⟩
      obtain ⟨rfl, -⟩ := hends.unique hends' (hstream.symm.trans hstream')
      rw [hparse] at hparse'
      cases hparse'
    · exact spec_pure ⟨rfl, head, hstream, hends, hlength, hparse⟩

variable (parseRetryAfter) (config : HttpDownloadConfig)

/-- The stream is a message with this head and this body. -/
def Message (stream : Bytes) (headers : HeaderParse) (body : Bytes) : Prop :=
  ∃ payload, Head parseRetryAfter config.maxHeaderBytes stream headers payload ∧ Framed headers payload body

variable {parseRetryAfter config}

theorem Message.unique (h : Message parseRetryAfter config stream headers body)
    (h' : Message parseRetryAfter config stream headers' body') : headers = headers' ∧ body = body' := by
  obtain ⟨payload, hhead, hframed⟩ := h
  obtain ⟨payload', hhead', hframed'⟩ := h'
  obtain ⟨rfl, rfl⟩ := hhead.unique hhead'
  exact ⟨rfl, hframed.unique hframed'⟩

theorem spec_requestAndStream (parseRetryAfter : String → Option Nat) (config : HttpDownloadConfig) (stream : Bytes) :
    Spec (requestAndStream parseRetryAfter config) stream
    (fun _ => ¬ ∃ headers body, Message parseRetryAfter config stream headers body ∧ headers.status / 100 = 2 ∧
      headers.contentLength.all (· ≤ config.maxBodyBytes) ∧ body.length ≤ config.maxBodyBytes)
    fun _ bytes n => n = bytes.length ∧
      ∃ headers, Message parseRetryAfter config stream headers bytes ∧ headers.status / 100 = 2 := by
  unfold requestAndStream
  apply spec_checkDeadline.quiet_bind
  rintro stream _ rfl
  apply Spec.quiet_bind (P := fun rest headers => Head parseRetryAfter config.maxHeaderBytes stream headers rest)
  · apply spec_readHeaders.mono fun _ _ _ h => h
    rintro e hnone ⟨headers, body, ⟨payload, hhead, -⟩, -⟩
    exact hnone ⟨headers, payload, hhead⟩
  · intro payload headers hhead
    apply spec_checkDeadline.quiet_bind
    rintro payload _ rfl
    -- The message that is to be refuted has the head that was read.
    have hknown : ∀ headers' body, Message parseRetryAfter config stream headers' body →
        headers' = headers ∧ Framed headers payload body := by
      rintro headers' body ⟨payload', hhead', hframed⟩
      obtain ⟨rfl, rfl⟩ := hhead'.unique hhead
      exact ⟨rfl, hframed⟩
    split_ifs with hstatus hlarge
    · refine spec_throw ?_ (isMismatch_statusError headers)
      rintro ⟨headers', body, hmessage, hstatus', -⟩
      obtain ⟨rfl, -⟩ := hknown headers' body hmessage
      exact hstatus hstatus'
    · refine spec_throw ?_
      rintro ⟨headers', body, hmessage, -, hfits, -⟩
      obtain ⟨rfl, -⟩ := hknown headers' body hmessage
      rcases hlength : headers'.contentLength with _ | length
      · simp [hlength] at hlarge
      · simp [hlength] at hlarge hfits
        omega
    · apply (spec_copyBody config headers).mono
      · rintro rest bytes n ⟨hframed, rfl⟩
        exact ⟨rfl, headers, ⟨payload, hhead, hframed⟩, not_not.mp hstatus⟩
      · rintro e hnone ⟨headers', body, hmessage, -, -, hfits⟩
        exact hnone ⟨body, (hknown headers' body hmessage).2, hfits⟩

end

/-! ## Answers -/

namespace HttpAnswer

/-- The bytes that come. -/
def carried : HttpAnswer → Bytes
  | .refused _ => []
  | .sent packets _ _ => packets.flatten

/-- The answer comes, to its end and in time. -/
def Faultless : HttpAnswer → Prop
  | .refused _ => False
  | .sent _ broken checks => broken = false ∧ checks = none

theorem run_spec (answer : HttpAnswer) {α : Type} {x : Fetch α} {Q : Bytes → Bytes → α → Prop}
    (h : Spec x answer.carried Fails Q) (sink : Bytes) (hasher : Option Bytes) :
    ∃ bytes, (answer.run x sink hasher).2 = (sink ++ bytes, hasher.map (· ++ bytes)) ∧
      match (answer.run x sink hasher).1 with
      | .ok a => ∃ rest, Q rest bytes a
      | .error e => e.isMismatch = false ∧ (answer.Faultless → Fails e) := by
  rcases answer with e | ⟨packets, broken, checks⟩
  · refine ⟨[], ?_, rfl, False.elim⟩
    show (sink, hasher) = _
    simp
  · have hstream : (packets.filter (!·.isEmpty)).flatten = packets.flatten := List.flatten_filter_not_isEmpty
    obtain ⟨bytes, hadvances, hresult⟩ :=
      h { packets := packets.filter (!·.isEmpty), broken, checks } (full_filter packets) hstream
    unfold run
    dsimp only
    refine ⟨bytes, ?_, ?_⟩
    · rw [hadvances.written, hadvances.hashed]
      rfl
    · rcases hx : (x.exec _).1 with e | a
      · rw [hx] at hresult
        exact hresult
      · rw [hx] at hresult
        exact ⟨_, hresult⟩

end HttpAnswer

section

variable (parseRetryAfter : String → Option Nat) (config : HttpDownloadConfig) (sha256 : Bytes → Bytes)

/-- A message of status 2xx with this body, within the limits. -/
structure HttpAnswer.Delivers (answer : HttpAnswer) (body : Bytes) : Prop where
  faultless : answer.Faultless
  message : ∃ headers, Message parseRetryAfter config answer.carried headers body ∧ headers.status / 100 = 2 ∧
    headers.contentLength.all (· ≤ config.maxBodyBytes)
  fits : body.length ≤ config.maxBodyBytes

/-- What a fetch that ends well has written is the body of the answer, its length is returned and its digest
is the expected one. A fetch of an answer that delivers a body fails over the digest only. -/
theorem fetch_spec (expectedSha256 : Option Bytes) (answer : HttpAnswer) (sink : Bytes) :
    ∃ bytes,
      (fetchDownloadVerifiedStreaming parseRetryAfter sha256 config expectedSha256 answer sink).2 = sink ++ bytes ∧
      match (fetchDownloadVerifiedStreaming parseRetryAfter sha256 config expectedSha256 answer sink).1 with
      | .ok n => n = bytes.length ∧ (∀ expected, expectedSha256 = some expected → sha256 bytes = expected) ∧
          ∃ headers, Message parseRetryAfter config answer.carried headers bytes ∧ headers.status / 100 = 2
      | .error _ => ∀ body, answer.Delivers parseRetryAfter config body →
          ∃ expected, expectedSha256 = some expected ∧ sha256 body ≠ expected := by
  obtain ⟨bytes, hrun, hresult⟩ :=
    answer.run_spec (spec_requestAndStream parseRetryAfter config answer.carried) sink
      (expectedSha256.map fun _ => [])
  unfold fetchDownloadVerifiedStreaming
  generalize answer.run (requestAndStream parseRetryAfter config) sink (expectedSha256.map fun _ => []) = outcome
    at hrun hresult
  obtain ⟨result, sink', hasher⟩ := outcome
  obtain ⟨rfl, rfl⟩ := Prod.mk.inj hrun
  refine ⟨bytes, ?_⟩
  rcases result with e | written
  · refine ⟨rfl, ?_⟩
    rintro body ⟨hfaultless, ⟨headers, hmessage, hstatus, hlength⟩, hfits⟩
    exact absurd ⟨headers, body, hmessage, hstatus, hlength, hfits⟩ (hresult.2 hfaultless)
  · obtain ⟨-, rfl, headers, hmessage, hstatus⟩ := hresult
    rcases expectedSha256 with _ | expected
    · refine ⟨rfl, rfl, ⟨?_, headers, hmessage, hstatus⟩⟩
      intro expected hexpected
      cases hexpected
    · dsimp only [Option.map_some, List.nil_append]
      split_ifs with hdigest
      · refine ⟨rfl, ?_⟩
        rintro body ⟨-, ⟨headers', hmessage', -⟩, -⟩
        obtain ⟨-, rfl⟩ := hmessage.unique hmessage'
        exact ⟨expected, rfl, hdigest⟩
      · refine ⟨rfl, rfl, ⟨?_, headers, hmessage, hstatus⟩⟩
        rintro _ ⟨⟩
        exact not_not.mp hdigest

end

end Pcloud
