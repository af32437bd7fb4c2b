import Pcloud.Lib.BlockChain
import Pcloud.Lib.HashChain
import Pcloud.Lib.SelfDelimiting
import Pcloud.Lib.Sha256
import Pcloud.Model.Bytes

/-!
# The audit log (`pcloud-store/src/repositories/audit.rs`)

The rows of the `audit_events` table and the two operations on them: an append that hashes its event after the
digest the repository remembers, and the walk that verifies the chain. SHA-256 and HMAC-SHA-256 come from other
crates. Queries are taken to succeed, and their columns to have the types they are read at.
-/

namespace Pcloud

open BlockChain HashChain

/-! ## Events and digests -/

structure AuditEvent where
  id : Int64
  category : OwnedString
  details : Option OwnedString
  createdAt : OwnedString
deriving DecidableEq

def pushStr (s : OwnedString) : Bytes := toLeBytes (UInt64.ofNat (utf8 s.text).length) ++ utf8 s.text

def canonicalEventBytes (event : AuditEvent) : Bytes :=
  toLeBytes event.id.toUInt64 ++ (pushStr event.category ++
    (event.details.elim [0] (fun details => 1 :: pushStr details) ++ pushStr event.createdAt))

structure AuditDigests where
  sha256 : Bytes → Block 32
  hmacSha256 : Bytes → Bytes → Block 32

def auditZeroPrev : Block 32 := Block.ofBytes 32 []

namespace AuditDigests

variable (digests : AuditDigests)

def computeEntryHash (prevHash : Block 32) (eventBytes : Bytes) : Block 32 :=
  digests.sha256 (prevHash.1 ++ eventBytes)

def computeHmac (key : Bytes) (entryHash : Block 32) : Block 32 :=
  digests.hmacSha256 (if key = [] then [0] else key) entryHash.1

/-- The digest of an event after another. -/
def entryHash (input : Block 32 × AuditEvent) : Block 32 :=
  digests.computeEntryHash input.1 (canonicalEventBytes input.2)

end AuditDigests

/-- The digests themselves. -/
def sha2Digests : AuditDigests where
  sha256 bytes := ⟨Sha256.digest bytes, Sha256.length_digest bytes⟩
  hmacSha256 key bytes := ⟨Sha256.hmac key bytes, Sha256.length_hmac key bytes⟩

/-! ## The table -/

structure AuditRow extends AuditEvent where
  prevHash : Option Bytes
  entryHash : Option Bytes
  hmac : Option Bytes
deriving DecidableEq

/-- The rows, by the primary key. -/
structure AuditEvents where
  rows : List AuditRow
  sorted : rows.Pairwise fun row row' => row.id < row'.id

namespace AuditEvents

def empty : AuditEvents := ⟨[], .nil⟩

variable (events : AuditEvents)

theorem lt_add_one_of_ne_maxValue {id : Int64} (h : id ≠ Int64.maxValue) : id < id + 1 := by
  have hne : id.toInt ≠ Int64.maxValue.toInt := fun heq => h (Int64.toInt_inj.mp heq)
  have hle := id.toInt_le
  have hge := id.le_toInt
  rw [Int64.toInt_maxValue] at hne hle
  rw [Int64.lt_iff_toInt_lt, Int64.toInt_add]
  show id.toInt < (id.toInt + 1).bmod (2 ^ 64)
  rw [Int.bmod_eq_of_le]
  · omega
  · omega
  · omega

/-- `AUTOINCREMENT`: one more than the largest id, while there is one. No row is ever deleted. -/
def nextId : Option Int64 :=
  match events.rows.getLast? with
  | none => some 1
  | some row => if row.id = Int64.maxValue then none else some (if row.id < 0 then 1 else row.id + 1)

theorem lt_nextId {id : Int64} (h : events.nextId = some id) : ∀ row ∈ events.rows, row.id < id := by
  rcases List.eq_nil_or_concat events.rows with hnil | ⟨front, last, hrows⟩
  · simp [hnil]
  · rw [List.concat_eq_append] at hrows
    have hlast : last.id < id := by
      simp only [nextId, hrows, List.getLast?_concat] at h
      split_ifs at h with hmax hneg
      · rw [← Option.some.inj h]
        exact Int64.lt_trans hneg (by decide)
      · rw [← Option.some.inj h]
        exact lt_add_one_of_ne_maxValue hmax
    have hsorted := events.sorted
    rw [hrows, List.pairwise_append] at hsorted
    intro row hrow
    rw [hrows, List.mem_append] at hrow
    rcases hrow with hfront | hrow
    · exact Int64.lt_trans (hsorted.2.2 row hfront last (List.mem_singleton_self last)) hlast
    · rw [List.mem_singleton.mp hrow]
      exact hlast

/-- `INSERT`, of a row with the next id. -/
def insert (row : AuditRow) (h : events.nextId = some row.id) : AuditEvents where
  rows := events.rows ++ [row]
  sorted := by
    refine List.pairwise_append.mpr ⟨events.sorted, List.pairwise_singleton .., ?_⟩
    intro old hold new hnew
    rw [List.mem_singleton.mp hnew]
    exact events.lt_nextId h old hold

end AuditEvents

/-! ## The repository -/

structure AuditRepository where
  retainedEventCount : Nat := 0
  lastEventDetails : Option OwnedString := none
  lastEntryHash : Block 32 := auditZeroPrev
  hmacKey : Option Bytes := none
deriving DecidableEq

structure VerifiedChain where
  firstId : Option Int64
  lastId : Option Int64
  entriesChecked : Nat
deriving DecidableEq

inductive AuditChainError
  | prevHashMismatch (id : Int64)
  | entryHashMismatch (id : Int64)
  | missingStoredHash (id : Int64)
  | hmacMismatch (id : Int64)
deriving DecidableEq

/-- The digest in the last row, where it has one. -/
def AuditEvents.lastHash (events : AuditEvents) : Block 32 :=
  match events.rows.getLast?.bind AuditRow.entryHash with
  | some bytes => if bytes.length = 32 then Block.ofBytes 32 bytes else auditZeroPrev
  | none => auditZeroPrev

namespace AuditRepository

variable (digests : AuditDigests) (repo : AuditRepository) (events : AuditEvents)

def load : AuditRepository where
  retainedEventCount := events.rows.length
  lastEventDetails := events.rows.getLast?.bind (·.details)
  lastEntryHash := events.lastHash

def setHmacKey (key : Option Bytes) : AuditRepository := { repo with hmacKey := key }

/-- The row that `append_event` leaves in the table. -/
def appendedRow (id : Int64) (category : OwnedString) (details : Option OwnedString) (createdAt : OwnedString) :
    AuditRow :=
  let event : AuditEvent := { id, category, details, createdAt }
  let entryHash := digests.computeEntryHash repo.lastEntryHash (canonicalEventBytes event)
  { event with
    prevHash := some repo.lastEntryHash.1
    entryHash := some entryHash.1
    hmac := repo.hmacKey.map fun key => (digests.computeHmac key entryHash).1 }

/-- One transaction: without an id for the row nothing is changed. -/
def appendEvent (category : OwnedString) (details : Option OwnedString) (createdAt : OwnedString) :
    Option (AuditRepository × AuditEvents) :=
  match hid : events.nextId with
  | none => none
  | some id =>
    let row := repo.appendedRow digests id category details createdAt
    some
      ({ repo with
          retainedEventCount := repo.retainedEventCount + 1
          lastEventDetails := details
          lastEntryHash := digests.computeEntryHash repo.lastEntryHash (canonicalEventBytes row.toAuditEvent) },
        events.insert row hid)

/-- The checks on one row. The result is the digest that the next row is checked against. -/
def checkRow (runningPrev : Option (Block 32)) (row : AuditRow) : Except AuditChainError (Block 32) :=
  match row.prevHash, row.entryHash with
  | some prevHashStored, some entryHashStored =>
    if prevHashStored.length ≠ 32 ∨ entryHashStored.length ≠ 32 then throw (.missingStoredHash row.id)
    else if runningPrev.any fun expectedPrev => prevHashStored ≠ expectedPrev.1 then throw (.prevHashMismatch row.id)
    else
      let prevArr := Block.ofBytes 32 prevHashStored
      let recomputed := digests.computeEntryHash prevArr (canonicalEventBytes row.toAuditEvent)
      if recomputed.1 ≠ entryHashStored then throw (.entryHashMismatch row.id)
      else
        match repo.hmacKey, row.hmac with
        | some key, some storedHmac =>
          if storedHmac ≠ (digests.computeHmac key recomputed).1 then throw (.hmacMismatch row.id)
          else pure recomputed
        | _, _ => pure recomputed
  | _, _ => throw (.missingStoredHash row.id)

/-- The loop of `verify_chain`. -/
def verifyRows : List AuditRow → Option (Block 32) → (firstId lastId : Option Int64) → (entries : Nat) →
    Except AuditChainError VerifiedChain
  | [], _, firstId, lastId, entries => pure { firstId, lastId, entriesChecked := entries }
  | row :: rows, runningPrev, firstId, _, entries => do
    let recomputed ← repo.checkRow digests runningPrev row
    verifyRows rows (some recomputed) (firstId.or (some row.id)) (some row.id) (entries + 1)

def verifyChain (fromId toId : Option Int64) : Except AuditChainError VerifiedChain :=
  repo.verifyRows digests
    (events.rows.filter fun row => (fromId.all fun id => id ≤ row.id) && (toId.all fun id => row.id ≤ id))
    none none none 0

end AuditRepository

/-! ## What is verified -/

namespace AuditRow

/-- A row as a link of the chain, where it holds two digests. -/
def link (row : AuditRow) : Link (Block 32) AuditEvent where
  prev := Block.ofBytes 32 (row.prevHash.getD [])
  body := row.toAuditEvent
  digest := Block.ofBytes 32 (row.entryHash.getD [])

@[simp]
theorem link_body (row : AuditRow) : row.link.body = row.toAuditEvent := rfl

def Stored (row : AuditRow) : Prop :=
  row.prevHash = some row.link.prev.1 ∧ row.entryHash = some row.link.digest.1

/-- A tag that is there is the tag of the digest, for one who has the key. -/
def TagOk (digests : AuditDigests) (key : Option Bytes) (row : AuditRow) : Prop :=
  ∀ k tag, key = some k → row.hmac = some tag → tag = (digests.computeHmac k row.link.digest).1

end AuditRow

def AuditEvents.links (events : AuditEvents) : List (Link (Block 32) AuditEvent) := events.rows.map AuditRow.link

/-- The rows as they are recorded: id, category, details and time. -/
def AuditEvents.events (events : AuditEvents) : List AuditEvent := events.rows.map AuditRow.toAuditEvent

/-- What an append or a verification hashes for the rows. -/
def AuditEvents.hashed (events : AuditEvents) : List Bytes :=
  events.rows.map fun row => row.link.prev.1 ++ canonicalEventBytes row.toAuditEvent

theorem AuditEvents.map_body_links (events : AuditEvents) : events.links.map Link.body = events.events := by
  simp [links, AuditEvents.events]

namespace AuditRepository

variable {digests : AuditDigests} {repo : AuditRepository} {row : AuditRow} {running : Option (Block 32)}
variable {digest : Block 32}

theorem stored_of_lengths {prevHash entryHash : Bytes} (hrow : row.prevHash = some prevHash)
    (hrow' : row.entryHash = some entryHash) (hlength : prevHash.length = 32) (hlength' : entryHash.length = 32) :
    row.link.prev.1 = prevHash ∧ row.link.digest.1 = entryHash := by
  unfold AuditRow.link
  simp only [hrow, hrow', Option.getD_some]
  constructor
  · rw [Block.ofBytes_val hlength.ge, List.take_of_length_le hlength.le]
  · rw [Block.ofBytes_val hlength'.ge, List.take_of_length_le hlength'.le]

theorem checkRow_eq_ok :
    repo.checkRow digests running row = .ok digest ↔
      row.Stored ∧ (∀ p, running = some p → row.link.prev = p) ∧ row.link.digest = digests.entryHash row.link.input ∧
        row.TagOk digests repo.hmacKey ∧ digest = row.link.digest := by
  unfold checkRow AuditRow.Stored
  rcases hprev : row.prevHash with _ | prevHash
  · simp
  · rcases hentry : row.entryHash with _ | entryHash
    · simp
    · have harr : Block.ofBytes 32 prevHash = row.link.prev := by simp [AuditRow.link, hprev]
      simp only [harr]
      split_ifs with hlength hrunning hrecomputed
      · refine iff_of_false (by simp) ?_
        rintro ⟨⟨hstored, hstored'⟩, -⟩
        rw [Option.some.injEq] at hstored hstored'
        rw [hstored, hstored'] at hlength
        simp at hlength
      all_goals
        rw [not_or, not_not, not_not] at hlength
        obtain ⟨hstored, hstored'⟩ := stored_of_lengths hprev hentry hlength.1 hlength.2
      · refine iff_of_false (by simp) ?_
        rintro ⟨-, hgoes, -⟩
        obtain ⟨p, hp, hne⟩ := (Option.any_eq_true ..).mp hrunning
        rw [← hgoes p hp, hstored] at hne
        simp at hne
      · refine iff_of_false (by simp) ?_
        rintro ⟨-, -, hdigest, -⟩
        exact hrecomputed (hstored' ▸ congrArg Subtype.val hdigest.symm)
      · have hgoes : ∀ p, running = some p → row.link.prev = p := by
          rintro p rfl
          rw [Option.any_some, decide_eq_true_eq, not_not] at hrunning
          exact Subtype.ext (hstored.trans hrunning)
        have hdigest : digests.computeEntryHash row.link.prev (canonicalEventBytes row.toAuditEvent) =
            row.link.digest := by
          rw [not_not] at hrecomputed
          exact Subtype.ext (hrecomputed.trans hstored'.symm)
        have hsound : row.link.digest = digests.entryHash row.link.input := hdigest.symm
        have hrest : ((some prevHash = some row.link.prev.1 ∧ some entryHash = some row.link.digest.1) ∧
            (∀ p, running = some p → row.link.prev = p) ∧ row.link.digest = digests.entryHash row.link.input ∧
              row.TagOk digests repo.hmacKey ∧ digest = row.link.digest) ↔
            row.TagOk digests repo.hmacKey ∧ row.link.digest = digest :=
          ⟨fun h => ⟨h.2.2.2.1, h.2.2.2.2.symm⟩,
            fun h => ⟨⟨by rw [hstored], by rw [hstored']⟩, hgoes, hsound, h.1, h.2.symm⟩⟩
        rw [hrest, hdigest]
        unfold AuditRow.TagOk
        rcases hkey : repo.hmacKey with _ | key
        · simp [pure, Except.pure]
        · rcases hhmac : row.hmac with _ | tag
          · simp [pure, Except.pure]
          · by_cases htag : tag = (digests.computeHmac key row.link.digest).1
            · simp [htag, pure, Except.pure]
            · simp [htag]

theorem verifyRows_isOk (rows : List AuditRow) (firstId lastId : Option Int64) (entries : Nat) :
    (repo.verifyRows digests rows running firstId lastId entries).isOk = true ↔
      (∀ row ∈ rows, row.Stored ∧ row.TagOk digests repo.hmacKey) ∧
        ∃ anchor, (∀ p, running = some p → anchor = p) ∧
          Chain digests.entryHash anchor (rows.map AuditRow.link) := by
  induction rows generalizing running firstId lastId entries with
  | nil =>
    constructor
    · intro _
      exact ⟨by simp, running.getD auditZeroPrev, by simp +contextual, .nil _⟩
    · intro _
      rfl
  | cons row rows ih =>
    unfold verifyRows
    rw [List.forall_mem_cons, List.map_cons]
    constructor
    · intro h
      rcases hcheck : repo.checkRow digests running row with e | recomputed
      · rw [hcheck] at h
        cases h
      · rw [hcheck] at h
        obtain ⟨hrows, anchor, hanchor, hchain⟩ := ih .. |>.mp h
        obtain ⟨hstored, hgoes, hdigest, htag, rfl⟩ := checkRow_eq_ok.mp hcheck
        refine ⟨⟨⟨hstored, htag⟩, hrows⟩, row.link.prev, hgoes, .cons rfl hdigest ?_⟩
        rw [← hanchor _ rfl]
        exact hchain
    · rintro ⟨⟨⟨hstored, htag⟩, hrows⟩, anchor, hanchor, hchain⟩
      rcases hchain with _ | ⟨hprev, hdigest, hrest⟩
      have hcheck : repo.checkRow digests running row = .ok row.link.digest :=
        checkRow_eq_ok.mpr ⟨hstored, fun p hp => hprev.trans (hanchor p hp), hdigest, htag, rfl⟩
      rw [hcheck]
      exact ih .. |>.mpr ⟨hrows, row.link.digest, fun p hp => Option.some.inj hp, hrest⟩

theorem verifyChain_isOk {events : AuditEvents} :
    (repo.verifyChain digests events none none).isOk = true ↔
      (∀ row ∈ events.rows, row.Stored ∧ row.TagOk digests repo.hmacKey) ∧
        ∃ anchor, Chain digests.entryHash anchor events.links := by
  unfold verifyChain AuditEvents.links
  simp [verifyRows_isOk]

end AuditRepository

end Pcloud
