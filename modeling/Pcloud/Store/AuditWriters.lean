import Mathlib.Logic.Function.Basic
import Pcloud.Lib.Runs
import Pcloud.Store.Audit

/-!
# The writers of the audit log (`pcloud-store/src/repositories/audit.rs`)

Every repository remembers the digest of the last row it knows of, and appends after that one. A repository
alone knows the last row of the table. Several of them, on one database, need not.
-/

namespace Pcloud

open BlockChain HashChain

/-! ## Appends -/

/-- The row that is appended goes on where the repository is, and the repository moves on to it. -/
structure Appended (digests : AuditDigests) (repo repo' : AuditRepository) (events events' : AuditEvents)
    (row : AuditRow) : Prop where
  rows : events'.rows = events.rows ++ [row]
  stored : row.Stored
  prev : row.link.prev = repo.lastEntryHash
  digest : row.link.digest = digests.entryHash row.link.input
  hmac : row.hmac = repo.hmacKey.map fun key => (digests.computeHmac key row.link.digest).1
  lastEntryHash : repo'.lastEntryHash = row.link.digest
  hmacKey : repo'.hmacKey = repo.hmacKey

theorem AuditRepository.appendEvent_eq_some {digests : AuditDigests} {repo repo' : AuditRepository}
    {events events' : AuditEvents} {category createdAt : OwnedString} {details : Option OwnedString}
    (h : repo.appendEvent digests events category details createdAt = some (repo', events')) :
    ∃ id, events.nextId = some id ∧
      Appended digests repo repo' events events' (repo.appendedRow digests id category details createdAt) := by
  unfold appendEvent at h
  split at h
  · cases h
  · rename_i id hid
    cases h
    refine ⟨id, hid, rfl, ?_, ?_, ?_, ?_, ?_, rfl⟩
    · simp [AuditRow.Stored, AuditRow.link, appendedRow]
    · simp [AuditRow.link, appendedRow]
    · simp [AuditRow.link, appendedRow, Link.input, AuditDigests.entryHash]
    · simp [AuditRow.link, appendedRow]
    · simp [AuditRow.link, appendedRow]

theorem AuditEvents.lastHash_eq_tip {events : AuditEvents} (h : ∀ row ∈ events.rows, row.Stored) :
    events.lastHash = tip auditZeroPrev events.links := by
  unfold AuditEvents.lastHash AuditEvents.links
  rcases List.eq_nil_or_concat events.rows with hnil | ⟨front, last, hrows⟩
  · simp [hnil]
  · rw [List.concat_eq_append] at hrows
    have hlast := (h last (hrows ▸ List.mem_append_right _ (List.mem_singleton_self last))).2
    simp [hrows, hlast]

/-! ## The repositories of a database -/

structure AuditWriters (ι : Type) where
  repos : ι → Option AuditRepository
  events : AuditEvents

inductive AuditCall (ι : Type)
  | load (i : ι)
  | setHmacKey (i : ι) (key : Option Bytes)
  | append (i : ι) (category : OwnedString) (details : Option OwnedString) (createdAt : OwnedString)

namespace AuditWriters

variable {ι : Type} [DecidableEq ι] (digests : AuditDigests)

def fresh : AuditWriters ι := ⟨fun _ => none, .empty⟩

def setRepo (s : AuditWriters ι) (i : ι) (repo : AuditRepository) : AuditWriters ι :=
  { s with repos := Function.update s.repos i (some repo) }

def step (s : AuditWriters ι) : AuditCall ι → AuditWriters ι
  | .load i => s.setRepo i (.load s.events)
  | .setHmacKey i key =>
    match s.repos i with
    | some repo => s.setRepo i (repo.setHmacKey key)
    | none => s
  | .append i category details createdAt =>
    match (s.repos i).bind fun repo => repo.appendEvent digests s.events category details createdAt with
    | some (repo, events) => { s.setRepo i repo with events }
    | none => s

/-- The table after a run of calls. -/
def table (calls : List (AuditCall ι)) : AuditEvents := (Runs.run (step digests) fresh calls).events

variable {digests} {s : AuditWriters ι}

/-- `T` holds of the table, and `R` of every repository that is open on it. -/
def Keeps (T : AuditEvents → Prop) (R : AuditEvents → AuditRepository → Prop) (s : AuditWriters ι) : Prop :=
  T s.events ∧ ∀ i repo, s.repos i = some repo → R s.events repo

variable {T : AuditEvents → Prop} {R : AuditEvents → AuditRepository → Prop}

omit [DecidableEq ι] in
theorem keeps_fresh (h : T .empty) : Keeps T R (fresh : AuditWriters ι) :=
  ⟨h, fun _ _ hrepo => by cases hrepo⟩

theorem keeps_setRepo {i : ι} {repo : AuditRepository} (htable : T s.events) (hrepo : R s.events repo)
    (hothers : ∀ j other, j ≠ i → s.repos j = some other → R s.events other) : Keeps T R (s.setRepo i repo) := by
  refine ⟨htable, fun j found hfound => ?_⟩
  change Function.update s.repos i (some repo) j = some found at hfound
  by_cases hij : j = i
  · subst hij
    rw [Function.update_self] at hfound
    cases hfound
    exact hrepo
  · rw [Function.update_of_ne hij] at hfound
    exact hothers j found hij hfound

theorem Keeps.step (h : Keeps T R s) {call : AuditCall ι} (hload : R s.events (.load s.events))
    (hkey : ∀ i repo key, call = .setHmacKey i key → R s.events repo → R s.events (repo.setHmacKey key))
    (happend : ∀ i category details createdAt repo repo' events row, call = .append i category details createdAt →
      s.repos i = some repo → Appended digests repo repo' s.events events row →
      T events ∧ R events repo' ∧ ∀ j other, j ≠ i → s.repos j = some other → R events other) :
    Keeps T R (s.step digests call) := by
  cases call with
  | load i => exact keeps_setRepo h.1 hload fun j other _ => h.2 j other
  | setHmacKey i key =>
    rcases hrepo : s.repos i with _ | repo
    · simp only [AuditWriters.step, hrepo]
      exact h
    · simp only [AuditWriters.step, hrepo]
      exact keeps_setRepo h.1 (hkey i repo key rfl (h.2 i repo hrepo)) fun j other _ => h.2 j other
  | append i category details createdAt =>
    rcases hrepo : s.repos i with _ | repo
    · simp only [AuditWriters.step, hrepo]
      exact h
    · rcases hdone : repo.appendEvent digests s.events category details createdAt with _ | ⟨repo', events⟩
      · simp only [AuditWriters.step, hrepo, Option.bind_some, hdone]
        exact h
      · obtain ⟨id, -, hrow⟩ := AuditRepository.appendEvent_eq_some hdone
        obtain ⟨htable, hwriter, hothers⟩ := happend i _ _ _ repo repo' events _ rfl hrepo hrow
        simp only [AuditWriters.step, hrepo, Option.bind_some, hdone]
        have hnext : Keeps T R (AuditWriters.setRepo { s with events } i repo') := keeps_setRepo htable hwriter hothers
        exact hnext

end AuditWriters

/-! ## One repository -/

/-- The rows hold their digests, and are a chain from the zero digest. -/
def AuditEvents.Linked (digests : AuditDigests) (events : AuditEvents) : Prop :=
  (∀ row ∈ events.rows, row.Stored) ∧ Chain digests.entryHash auditZeroPrev events.links

theorem Appended.links {digests : AuditDigests} {repo repo' : AuditRepository} {events events' : AuditEvents}
    {row : AuditRow} (h : Appended digests repo repo' events events' row) :
    events'.links = events.links ++ [row.link] := by
  simp [AuditEvents.links, h.rows]

theorem Appended.linked {digests : AuditDigests} {repo repo' : AuditRepository} {events events' : AuditEvents}
    {row : AuditRow} (h : Appended digests repo repo' events events' row) (hlinked : events.Linked digests)
    (hrepo : repo.lastEntryHash = tip auditZeroPrev events.links) : events'.Linked digests := by
  constructor
  · rw [h.rows]
    exact List.forall_mem_append.mpr ⟨hlinked.1, by simpa using h.stored⟩
  · rw [h.links]
    exact chain_concat.mpr ⟨hlinked.2, h.prev.trans hrepo, h.digest⟩

namespace AuditWriters

variable {digests : AuditDigests}

theorem linked_step {s : AuditWriters Unit}
    (h : Keeps (AuditEvents.Linked digests) (fun events repo => repo.lastEntryHash = tip auditZeroPrev events.links) s)
    (call : AuditCall Unit) :
    Keeps (AuditEvents.Linked digests) (fun events repo => repo.lastEntryHash = tip auditZeroPrev events.links)
      (s.step digests call) := by
  apply h.step
  · exact AuditEvents.lastHash_eq_tip h.1.1
  · rintro i repo key - hrepo
    exact hrepo
  · rintro i category details createdAt repo repo' events row - hrepo hrow
    refine ⟨hrow.linked h.1 (h.2 i repo hrepo), ?_, fun j _ hj => absurd rfl hj⟩
    rw [hrow.lastEntryHash, hrow.links, tip_concat]

theorem linked_table (calls : List (AuditCall Unit)) : (table digests calls).Linked digests :=
  have hfresh : AuditEvents.Linked digests .empty := ⟨by simp [AuditEvents.empty], .nil _⟩
  (Runs.run_invariant (keeps_fresh hfresh) fun _ call h => linked_step h call).1

end AuditWriters

/-! ## Several repositories -/

namespace AuditWriters

variable {ι : Type} [DecidableEq ι] (digests : AuditDigests) (verifier : AuditRepository)

/-- An append is made by a repository that knows the last row, and with a tag that the verifier accepts. -/
def KnowsTip (s : AuditWriters ι) : AuditCall ι → Prop
  | .append i category details createdAt => ∀ repo id, s.repos i = some repo → s.events.nextId = some id →
      repo.lastEntryHash = s.events.lastHash ∧
        (repo.appendedRow digests id category details createdAt).TagOk digests verifier.hmacKey
  | _ => True

variable {digests verifier} {s : AuditWriters ι}

/-- The rows hold their digests, and the first one names the zero digest. -/
def Anchored (events : AuditEvents) : Prop :=
  (∀ row ∈ events.rows, row.Stored) ∧ ∀ row ∈ events.rows.head?, row.link.prev = auditZeroPrev

/-- Where there is no row, a repository remembers the zero digest. -/
def FirstIsZero (events : AuditEvents) (repo : AuditRepository) : Prop :=
  events.rows = [] → repo.lastEntryHash = auditZeroPrev

theorem anchored_step (h : Keeps Anchored FirstIsZero s) (call : AuditCall ι) :
    Keeps Anchored FirstIsZero (s.step digests call) := by
  apply h.step
  · intro hnil
    simp [AuditRepository.load, AuditEvents.lastHash, hnil]
  · rintro i repo key - hrepo
    exact hrepo
  · rintro i category details createdAt repo repo' events row - hrepo hrow
    have hsome : events.rows ≠ [] := by simp [hrow.rows]
    refine ⟨⟨?_, ?_⟩, fun hnil => absurd hnil hsome, fun _ _ _ _ hnil => absurd hnil hsome⟩
    · rw [hrow.rows]
      exact List.forall_mem_append.mpr ⟨h.1.1, by simpa using hrow.stored⟩
    · intro first hfirst
      rw [hrow.rows] at hfirst
      rcases hold : s.events.rows with _ | ⟨old, rest⟩
      · rw [hold] at hfirst
        rw [← Option.some.inj hfirst, hrow.prev]
        exact h.2 i repo hrepo hold
      · rw [hold] at hfirst
        rw [← Option.some.inj hfirst]
        exact h.1.2 old (by rw [hold]; rfl)

/-- An anchored table verifies if it is a chain from the zero digest with tags that are accepted. -/
def Verifies (digests : AuditDigests) (verifier : AuditRepository) (events : AuditEvents) : Prop :=
  Chain digests.entryHash auditZeroPrev events.links ∧ ∀ row ∈ events.rows, row.TagOk digests verifier.hmacKey

theorem verifyChain_isOk_iff_verifies {events : AuditEvents} (h : Anchored events) :
    (verifier.verifyChain digests events none none).isOk = true ↔ Verifies digests verifier events := by
  rw [AuditRepository.verifyChain_isOk]
  constructor
  · rintro ⟨hrows, anchor, hchain⟩
    refine ⟨?_, fun row hrow => (hrows row hrow).2⟩
    have hhead := h.2
    unfold AuditEvents.links at hchain ⊢
    rcases hfirst : events.rows with _ | ⟨first, rest⟩
    · exact .nil _
    · rw [hfirst] at hchain hhead
      rcases hchain with _ | ⟨-, hdigest, hrest⟩
      exact .cons (hhead first rfl) hdigest hrest
  · rintro ⟨hchain, htags⟩
    exact ⟨fun row hrow => ⟨h.1 row hrow, htags row hrow⟩, auditZeroPrev, hchain⟩

theorem nextId_of_appendEvent_eq_none {repo : AuditRepository} {events : AuditEvents} {category createdAt : OwnedString}
    {details : Option OwnedString} (h : repo.appendEvent digests events category details createdAt = none) :
    events.nextId = none := by
  unfold AuditRepository.appendEvent at h
  split at h
  · rename_i hid
    exact hid
  · cases h

omit [DecidableEq ι] in
theorem knowsTip_append {i : ι} {category createdAt : OwnedString} {details : Option OwnedString}
    {repo : AuditRepository} {id : Int64} (hrepo : s.repos i = some repo) (hid : s.events.nextId = some id) :
    KnowsTip digests verifier s (.append i category details createdAt) ↔
      repo.lastEntryHash = s.events.lastHash ∧
        (repo.appendedRow digests id category details createdAt).TagOk digests verifier.hmacKey := by
  constructor
  · intro h
    exact h repo id hrepo hid
  · intro h repo' id' hrepo' hid'
    obtain rfl := Option.some.inj (hrepo.symm.trans hrepo')
    obtain rfl := Option.some.inj (hid.symm.trans hid')
    exact h

theorem verifies_step (h : Anchored s.events) (call : AuditCall ι) :
    Verifies digests verifier (s.step digests call).events ↔
      Verifies digests verifier s.events ∧ KnowsTip digests verifier s call := by
  cases call with
  | load i => exact (and_iff_left trivial).symm
  | setHmacKey i key =>
    have hsame : (s.step digests (.setHmacKey i key)).events = s.events := by
      rcases hrepo : s.repos i with _ | repo
      · simp [step, hrepo]
      · simp [step, hrepo, setRepo]
    rw [hsame]
    exact (and_iff_left trivial).symm
  | append i category details createdAt =>
    rcases hrepo : s.repos i with _ | repo
    · simp [step, KnowsTip, hrepo]
    · rcases hdone : repo.appendEvent digests s.events category details createdAt with _ | ⟨repo', events⟩
      · simp [step, KnowsTip, hrepo, hdone, nextId_of_appendEvent_eq_none hdone]
      · obtain ⟨id, hid, hrow⟩ := AuditRepository.appendEvent_eq_some hdone
        have htip := AuditEvents.lastHash_eq_tip h.1
        have hnext : (s.step digests (.append i category details createdAt)).events = events := by
          simp [step, hrepo, hdone]
        rw [hnext]
        unfold Verifies
        rw [knowsTip_append hrepo hid, hrow.links, hrow.rows, chain_concat, List.forall_mem_append,
          List.forall_mem_singleton, hrow.prev, ← htip]
        constructor
        · rintro ⟨⟨hchain, hknows, -⟩, htags, htag⟩
          exact ⟨⟨hchain, htags⟩, hknows, htag⟩
        · rintro ⟨⟨hchain, htags⟩, hknows, htag⟩
          exact ⟨⟨hchain, hknows, hrow.digest⟩, htags, htag⟩

/-- The table of a run verifies just if every append of the run knew the tip. -/
theorem verifyChain_table_iff (calls : List (AuditCall ι)) :
    (verifier.verifyChain digests (table digests calls) none none).isOk = true ↔
      Runs.AllSteps (step digests) (KnowsTip digests verifier) fresh calls := by
  have hempty : Anchored .empty := ⟨by simp [AuditEvents.empty], by simp [AuditEvents.empty]⟩
  have hfresh : Verifies digests verifier .empty := ⟨.nil _, by simp [AuditEvents.empty]⟩
  have hrun : Keeps Anchored FirstIsZero (Runs.run (step digests) fresh calls) :=
    Runs.run_invariant (keeps_fresh hempty) fun _ call h => anchored_step h call
  calc (verifier.verifyChain digests (table digests calls) none none).isOk = true
    _ ↔ Verifies digests verifier (table digests calls) := verifyChain_isOk_iff_verifies hrun.1
    _ ↔ Verifies digests verifier .empty ∧ Runs.AllSteps (step digests) (KnowsTip digests verifier) fresh calls :=
      Runs.run_iff_allSteps_of_invariant (P := fun s : AuditWriters ι => Verifies digests verifier s.events)
        (fun _ call h => anchored_step h call) (fun _ call h => verifies_step h.1 call) (keeps_fresh hempty)
    _ ↔ Runs.AllSteps (step digests) (KnowsTip digests verifier) fresh calls := and_iff_right hfresh

end AuditWriters

/-! ### Two first appends -/

/-- A text that is short enough, as all are here. -/
def auditText (text : String) : OwnedString :=
  if h : (utf8 text).length ≤ isizeMax then ⟨text, h⟩ else ⟨"", by decide⟩

/-- Who holds a repository: the store profile of the daemon, and the sync loop runtime. -/
inductive AuditOwner
  | profile
  | syncLoop
deriving DecidableEq

def SurvivesWriters (digests : AuditDigests) (verifier : AuditRepository) : Prop :=
  ∀ calls : List (AuditCall AuditOwner),
    (verifier.verifyChain digests (AuditWriters.table digests calls) none none).isOk = true

def loginThenCycle : List (AuditCall AuditOwner) :=
  [.load .profile, .load .syncLoop,
    .append .profile (auditText "auth") (some (auditText "login")) (auditText "2026-01-01 00:00:00"),
    .append .syncLoop (auditText "sync.loop.cycle") none (auditText "2026-01-01 00:00:01")]

theorem not_survivesWriters : ¬ SurvivesWriters sha2Digests {} := by
  intro h
  have hverify := h loginThenCycle
  revert hverify
  decide +kernel

end Pcloud
