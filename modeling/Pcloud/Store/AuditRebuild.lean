import Pcloud.Store.AuditWriters
import Pcloud.Store.MigrationRestart

/-!
# Audit chains that are rebuilt (`pcloud-store/src/repositories/audit.rs`)

A rebuild reads the events and writes every hash anew. What it leaves is a chain from the zero digest, and the only
one there is for these events.
-/

namespace Pcloud

open BlockChain HashChain

/-! ## Ranges of a sorted list -/

section Ranges

variable {α : Type} {R : α → α → Prop} {p : α → Bool} {xs : List α}

theorem exists_append_filter (h : xs.Pairwise R) (hp : ∀ a b, R a b → p a = true → p b = true) :
    ∃ front, xs = front ++ xs.filter p := by
  induction xs with
  | nil => exact ⟨[], rfl⟩
  | cons x xs ih =>
    obtain ⟨hx, hxs⟩ := List.pairwise_cons.mp h
    by_cases hpx : p x = true
    · have hall : xs.filter p = xs := List.filter_eq_self.mpr fun y hy => hp x y (hx y hy) hpx
      exact ⟨[], by rw [List.filter_cons_of_pos hpx, hall]; rfl⟩
    · obtain ⟨front, hfront⟩ := ih hxs
      exact ⟨x :: front, by rw [List.filter_cons_of_neg hpx, List.cons_append, ← hfront]⟩

theorem exists_filter_append (h : xs.Pairwise R) (hp : ∀ a b, R a b → p b = true → p a = true) :
    ∃ back, xs = xs.filter p ++ back := by
  induction xs with
  | nil => exact ⟨[], rfl⟩
  | cons x xs ih =>
    obtain ⟨hx, hxs⟩ := List.pairwise_cons.mp h
    by_cases hpx : p x = true
    · obtain ⟨back, hback⟩ := ih hxs
      exact ⟨back, by rw [List.filter_cons_of_pos hpx, List.cons_append, ← hback]⟩
    · have hnone : xs.filter p = [] := List.filter_eq_nil_iff.mpr fun y hy hpy => hpx (hp x y (hx y hy) hpy)
      exact ⟨x :: xs, by rw [List.filter_cons_of_neg hpx, hnone]; rfl⟩

end Ranges

/-- The rows of a range of ids. -/
def InRange (fromId toId : Option Int64) (row : AuditRow) : Bool :=
  (fromId.all fun id => id ≤ row.id) && (toId.all fun id => row.id ≤ id)

theorem AuditEvents.exists_range (events : AuditEvents) (fromId toId : Option Int64) :
    ∃ front back, events.rows = front ++ (events.rows.filter (InRange fromId toId) ++ back) := by
  have hfrom : ∀ a b : AuditRow, a.id < b.id → (fromId.all fun id => id ≤ a.id) = true →
      (fromId.all fun id => id ≤ b.id) = true := by
    intro a b hab ha
    cases fromId with
    | none => rfl
    | some id => simpa using Int64.le_trans (by simpa using ha) (Int64.le_of_lt hab)
  have hto : ∀ a b : AuditRow, a.id < b.id → (toId.all fun id => b.id ≤ id) = true →
      (toId.all fun id => a.id ≤ id) = true := by
    intro a b hab hb
    cases toId with
    | none => rfl
    | some id => simpa using Int64.le_trans (Int64.le_of_lt hab) (by simpa using hb)
  obtain ⟨front, hfront⟩ := exists_append_filter events.sorted hfrom
  obtain ⟨back, hback⟩ := exists_filter_append (events.sorted.filter _) hto
  refine ⟨front, back, ?_⟩
  rw [List.filter_filter] at hback
  have hrange : events.rows.filter (InRange fromId toId) = events.rows.filter fun row =>
      (toId.all fun id => row.id ≤ id) && (fromId.all fun id => id ≤ row.id) := by
    refine List.filter_congr fun row _ => ?_
    exact Bool.and_comm _ _
  rw [hrange, ← hback]
  exact hfront

/-! ## The walk over a range -/

namespace AuditRepository

variable {digests : AuditDigests} {verifier : AuditRepository}

theorem verifyRows_entries {rows : List AuditRow} {running : Option (Block 32)} {firstId lastId : Option Int64}
    {entries : Nat} {verified : VerifiedChain}
    (h : verifier.verifyRows digests rows running firstId lastId entries = .ok verified) :
    verified.entriesChecked = entries + rows.length := by
  induction rows generalizing running firstId lastId entries with
  | nil =>
    obtain rfl := Except.ok.inj h
    rfl
  | cons row rows ih =>
    unfold verifyRows at h
    cases hcheck : verifier.checkRow digests running row with
    | error err =>
      rw [hcheck] at h
      cases h
    | ok recomputed =>
      rw [hcheck] at h
      rw [ih h, List.length_cons]
      omega

theorem verifyChain_range {events : AuditEvents} (hlinked : events.Linked digests)
    (htags : ∀ row ∈ events.rows, row.TagOk digests verifier.hmacKey) (fromId toId : Option Int64) :
    ∃ verified, verifier.verifyChain digests events fromId toId = .ok verified ∧
      verified.entriesChecked = (events.rows.filter (InRange fromId toId)).length := by
  obtain ⟨front, back, hrows⟩ := events.exists_range fromId toId
  have hchain : Chain digests.entryHash auditZeroPrev
      (front.map AuditRow.link ++
        ((events.rows.filter (InRange fromId toId)).map AuditRow.link ++ back.map AuditRow.link)) := by
    rw [← List.map_append, ← List.map_append, ← hrows]
    exact hlinked.2
  have hok : (verifier.verifyChain digests events fromId toId).isOk = true := by
    refine (verifyRows_isOk _ none none 0).mpr ⟨fun row hrow => ?_, ?_⟩
    · have hmem := List.mem_of_mem_filter hrow
      exact ⟨hlinked.1 row hmem, htags row hmem⟩
    · refine ⟨_, fun p hp => ?_, (chain_append.mp (chain_append.mp hchain).2).1⟩
      cases hp
  cases hverify : verifier.verifyChain digests events fromId toId with
  | error err =>
    rw [hverify] at hok
    cases hok
  | ok verified =>
    refine ⟨verified, rfl, ?_⟩
    rw [verifyRows_entries hverify, Nat.zero_add]
    rfl

end AuditRepository

/-! ## The rows of a rebuild -/

/-- The chain of the events, without tags. -/
def chainRows (digests : AuditDigests) (prev : Block 32) : List AuditEvent → List AuditRow
  | [] => []
  | event :: rest =>
    let entryHash := digests.computeEntryHash prev (canonicalEventBytes event)
    { event with prevHash := some prev.1, entryHash := some entryHash.1, hmac := none } ::
      chainRows digests entryHash rest

section Rebuild

variable {digests : AuditDigests} {events : AuditEvents} {prev : Block 32}

theorem rehashed_of_notMem {all : List AuditEvent} {row : AuditRow} (h : ∀ event ∈ all, row.id ≠ event.id) :
    row.rehashed digests prev all = row := by
  induction all generalizing prev with
  | nil => rfl
  | cons event rest ih =>
    obtain ⟨hevent, hrest⟩ := List.forall_mem_cons.mp h
    have hsame : ∀ entryHash, row.rehash event.id prev.1 entryHash = row := fun _ => if_neg hevent
    unfold AuditRow.rehashed
    simp only [hsame]
    exact ih hrest

theorem map_rehashed {rows : List AuditRow} (hrows : rows.Pairwise fun row row' => row.id < row'.id) :
    rows.map (AuditRow.rehashed digests prev (rows.map AuditRow.toAuditEvent)) =
      chainRows digests prev (rows.map AuditRow.toAuditEvent) := by
  induction rows generalizing prev with
  | nil => rfl
  | cons row rows ih =>
    obtain ⟨hrow, hrest⟩ := List.pairwise_cons.mp hrows
    rw [List.map_cons, List.map_cons, chainRows]
    congr 1
    · rw [AuditRow.rehashed, AuditRow.rehash, if_pos rfl]
      refine rehashed_of_notMem fun event hevent => ?_
      obtain ⟨row', hrow', rfl⟩ := List.mem_map.mp hevent
      exact Int64.ne_of_lt (hrow row' hrow')
    · rw [← ih hrest]
      refine List.map_congr_left fun row' hrow' => ?_
      rw [AuditRow.rehashed, AuditRow.rehash, if_neg (Int64.ne_of_lt (hrow row' hrow')).symm]

theorem rebuilt_rows : (events.rebuilt digests).rows = chainRows digests auditZeroPrev events.events := by
  rw [AuditEvents.rebuilt, rehashAll_rows]
  exact map_rehashed events.sorted

theorem rebuilt_events : (events.rebuilt digests).events = events.events := rehashAll_events

theorem chainRows_stored {all : List AuditEvent} :
    ∀ row ∈ chainRows digests prev all, row.Stored ∧ row.hmac = none := by
  induction all generalizing prev with
  | nil => simp [chainRows]
  | cons event rest ih =>
    rw [chainRows]
    refine List.forall_mem_cons.mpr ⟨⟨?_, rfl⟩, ih⟩
    simp [AuditRow.Stored, AuditRow.link]

theorem chain_chainRows {all : List AuditEvent} :
    Chain digests.entryHash prev ((chainRows digests prev all).map AuditRow.link) := by
  induction all generalizing prev with
  | nil => exact .nil _
  | cons event rest ih =>
    rw [chainRows, List.map_cons]
    refine .cons ?_ ?_ ?_
    · simp [AuditRow.link]
    · simp [AuditRow.link, Link.input, AuditDigests.entryHash]
    · simpa [AuditRow.link] using ih

theorem linked_rebuilt : (events.rebuilt digests).Linked digests := by
  refine ⟨fun row hrow => ?_, ?_⟩
  · rw [rebuilt_rows] at hrow
    exact (chainRows_stored row hrow).1
  · rw [AuditEvents.links, rebuilt_rows]
    exact chain_chainRows

/-- What of a row a rebuild may not change. -/
def AuditRow.hashed (row : AuditRow) : AuditEvent × Option Bytes × Option Bytes :=
  (row.toAuditEvent, row.prevHash, row.entryHash)

theorem map_hashed_chainRows {rows : List AuditRow} (hstored : ∀ row ∈ rows, row.Stored)
    (hchain : Chain digests.entryHash prev (rows.map AuditRow.link)) :
    (chainRows digests prev (rows.map AuditRow.toAuditEvent)).map AuditRow.hashed = rows.map AuditRow.hashed := by
  induction rows generalizing prev with
  | nil => rfl
  | cons row rows ih =>
    obtain ⟨hrow, hrest⟩ := List.forall_mem_cons.mp hstored
    rw [List.map_cons] at hchain
    rcases hchain with _ | ⟨hprev, hdigest, hlinks⟩
    have hentry : digests.computeEntryHash prev (canonicalEventBytes row.toAuditEvent) = row.link.digest := by
      rw [← hprev, hdigest]
      rfl
    rw [List.map_cons, List.map_cons, chainRows, List.map_cons, hentry, ih hrest hlinks]
    congr 1
    rw [AuditRow.hashed, AuditRow.hashed, hrow.1, hrow.2, hprev]

theorem rebuilt_of_linked (h : events.Linked digests) :
    (events.rebuilt digests).rows.map AuditRow.hashed = events.rows.map AuditRow.hashed := by
  rw [rebuilt_rows]
  exact map_hashed_chainRows h.1 h.2

end Rebuild

/-! ## Later calls of one repository -/

namespace AuditWriters

/-- The table after calls of one repository on a table that is there. -/
def tableFrom (digests : AuditDigests) (events : AuditEvents) (calls : List (AuditCall Unit)) : AuditEvents :=
  (Runs.run (step digests) ⟨fun _ => none, events⟩ calls).events

/-- A key that is provided is one that the verifier has, or the verifier has none. -/
def KeyAgrees (verifier : AuditRepository) : AuditCall Unit → Prop
  | .setHmacKey _ key => key = none ∨ verifier.hmacKey = none ∨ verifier.hmacKey = key
  | _ => True

/-- The table is a chain with tags that the verifier accepts, and who is open on it appends more of them. -/
def Accepted (digests : AuditDigests) (verifier : AuditRepository) : AuditWriters Unit → Prop :=
  Keeps (fun events => events.Linked digests ∧ ∀ row ∈ events.rows, row.TagOk digests verifier.hmacKey)
    fun events repo => repo.lastEntryHash = tip auditZeroPrev events.links ∧
      (repo.hmacKey = none ∨ verifier.hmacKey = none ∨ verifier.hmacKey = repo.hmacKey)

theorem accepted_step {digests : AuditDigests} {verifier : AuditRepository} {s : AuditWriters Unit}
    (h : Accepted digests verifier s) {call : AuditCall Unit} (hkey : KeyAgrees verifier call) :
    Accepted digests verifier (s.step digests call) := by
  apply Keeps.step h
  · exact ⟨AuditEvents.lastHash_eq_tip h.1.1.1, .inl rfl⟩
  · rintro i repo key rfl ⟨hrepo, -⟩
    exact ⟨hrepo, hkey⟩
  · rintro i category details createdAt repo repo' events row - hrepo hrow
    obtain ⟨htip, hagrees⟩ := h.2 i repo hrepo
    refine ⟨⟨hrow.linked h.1.1 htip, ?_⟩, ⟨?_, ?_⟩, fun j _ hj => absurd rfl hj⟩
    · rw [hrow.rows]
      refine List.forall_mem_append.mpr ⟨h.1.2, List.forall_mem_singleton.mpr fun k tag hk htag => ?_⟩
      rw [hrow.hmac] at htag
      obtain ⟨key, hkey, rfl⟩ := Option.map_eq_some_iff.mp htag
      rcases hagrees with hnone | hnone | hsame
      · rw [hnone] at hkey
        cases hkey
      · rw [hnone] at hk
        cases hk
      · rw [hk, hkey] at hsame
        rw [Option.some.inj hsame]
    · rw [hrow.lastEntryHash, hrow.links, tip_concat]
    · rw [hrow.hmacKey]
      exact hagrees

theorem accepted_tableFrom {digests : AuditDigests} {verifier : AuditRepository} {events : AuditEvents}
    {calls : List (AuditCall Unit)} (hlinked : events.Linked digests) (htags : ∀ row ∈ events.rows, row.hmac = none)
    (hkeys : ∀ call ∈ calls, KeyAgrees verifier call) :
    (tableFrom digests events calls).Linked digests ∧
      ∀ row ∈ (tableFrom digests events calls).rows, row.TagOk digests verifier.hmacKey := by
  have hstart : ∀ row ∈ events.rows, row.TagOk digests verifier.hmacKey := by
    intro row hrow k tag _ htag
    rw [htags row hrow] at htag
    cases htag
  have hfresh : Accepted digests verifier ⟨fun _ => none, events⟩ := by
    refine ⟨⟨hlinked, hstart⟩, fun _ _ hrepo => ?_⟩
    cases hrepo
  exact ((Runs.allSteps_of_calls hkeys).invariant hfresh fun _ _ hkeeps hkey => accepted_step hkeeps hkey).1

end AuditWriters

/-- A rebuild keeps the events and leaves a chain that verifies over every range, also after any calls of one
repository, and that a further rebuild does not change. -/
theorem rebuild_verifies (digests : AuditDigests) (db : Database)
    (hcolumns : ∀ column ∈ auditColumns, column ∈ db.schema.tableInfo .auditEvents) :
    ∃ rebuilt : AuditEvents,
      (rebuildHashChain digests).exec db = (.ok (), { db with auditEvents := rebuilt }) ∧
      rebuilt.events = db.auditEvents.events ∧
      ∀ calls : List (AuditCall Unit),
        (∀ verifier : AuditRepository, (∀ call ∈ calls, AuditWriters.KeyAgrees verifier call) →
          ∀ fromId toId, ∃ verified,
            verifier.verifyChain digests (AuditWriters.tableFrom digests rebuilt calls) fromId toId = .ok verified ∧
            verified.entriesChecked =
              ((AuditWriters.tableFrom digests rebuilt calls).rows.filter (InRange fromId toId)).length) ∧
        ∃ again : AuditEvents,
          (rebuildHashChain digests).exec { db with auditEvents := AuditWriters.tableFrom digests rebuilt calls } =
            (.ok (), { db with auditEvents := again }) ∧
          again.rows.map AuditRow.hashed = (AuditWriters.tableFrom digests rebuilt calls).rows.map AuditRow.hashed := by
  have htags : ∀ row ∈ (db.auditEvents.rebuilt digests).rows, row.hmac = none := by
    rw [rebuilt_rows]
    exact fun row hrow => (chainRows_stored row hrow).2
  refine ⟨db.auditEvents.rebuilt digests, exec_rebuild hcolumns, rebuilt_events, fun calls => ⟨?_, ?_⟩⟩
  · intro verifier hkeys fromId toId
    obtain ⟨hlinked, htags'⟩ := AuditWriters.accepted_tableFrom linked_rebuilt htags hkeys
    exact AuditRepository.verifyChain_range hlinked htags' fromId toId
  · have hany : ∀ call ∈ calls, AuditWriters.KeyAgrees {} call := by
      intro call _
      cases call with
      | setHmacKey i key => exact .inr (.inl rfl)
      | load i => trivial
      | append i category details createdAt => trivial
    have hlinked := (AuditWriters.accepted_tableFrom linked_rebuilt htags hany).1
    exact ⟨_, exec_rebuild hcolumns, rebuilt_of_linked hlinked⟩

/-- Rows from before the hashes, and with odd ones. -/
def legacyRows : List AuditRow :=
  [⟨⟨3, auditText "login", none, auditText "2026-01-01 00:00:00"⟩, none, none, none⟩,
    ⟨⟨7, auditText "logout", none, auditText "2026-01-02 00:00:00"⟩, some [1], none, some [2]⟩]

theorem legacyRows_sorted : legacyRows.Pairwise fun row row' => row.id < row'.id := by decide

def legacyStore : Database := storeAt sha2Digests 11 ⟨legacyRows, legacyRows_sorted⟩

theorem rebuild_verifies_sample :
    ∃ rebuilt : AuditEvents, (rebuildHashChain sha2Digests).exec legacyStore =
      (.ok (), { legacyStore with auditEvents := rebuilt }) ∧ rebuilt.events = legacyStore.auditEvents.events := by
  obtain ⟨rebuilt, hexec, hevents, -⟩ := rebuild_verifies sha2Digests legacyStore (by decide)
  exact ⟨rebuilt, hexec, hevents⟩

end Pcloud
