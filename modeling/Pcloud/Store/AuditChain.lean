import Mathlib.Data.List.Nodup
import Pcloud.Store.AuditWriters

/-!
# What the audit chain gives away

A table that was written in the place of another one verifies just where the chain and the tags tie it to that one.
-/

namespace Pcloud

open BlockChain HashChain

/-! ## Encodings -/

theorem toLeBytes_injective : Function.Injective toLeBytes := by
  intro word word' h
  apply UInt64.toNat_inj.mp
  rw [← value_toLeBytes, ← value_toLeBytes, h]

theorem selfDelimiting_pushStr : SelfDelimiting pushStr := by
  have hwidth : ∀ n, (toLeBytes (UInt64.ofNat n)).length = 8 := by simp
  apply SelfDelimiting.of_length_before hwidth
  · exact OwnedString.utf8_injective
  · intro s s' h
    have hfits := s.fits
    have hfits' := s'.fits
    have hwords := congrArg UInt64.toNat (toLeBytes_injective h)
    unfold isizeMax at hfits hfits'
    rwa [UInt64.toNat_ofNat_of_lt' (by simp only [UInt64.size]; omega),
      UInt64.toNat_ofNat_of_lt' (by simp only [UInt64.size]; omega)] at hwords

theorem selfDelimiting_canonicalEventBytes : SelfDelimiting canonicalEventBytes := by
  have hid : SelfDelimiting fun id : Int64 => toLeBytes id.toUInt64 := by
    have hlength : ∀ id : Int64, (toLeBytes id.toUInt64).length = 8 := by simp
    refine .of_length hlength fun id id' h => ?_
    exact congrArg Int64.ofUInt64 (toLeBytes_injective h)
  have hdetails := selfDelimiting_pushStr.option (show (0 : UInt8) ≠ 1 by decide)
  have hfields := hid.prod (selfDelimiting_pushStr.prod (hdetails.prod selfDelimiting_pushStr))
  have hinj : Function.Injective fun event : AuditEvent =>
      (event.id, event.category, event.details, event.createdAt) := by
    rintro ⟨id, category, details, createdAt⟩ event' h
    simp only [Prod.mk.injEq] at h
    obtain ⟨rfl, rfl, rfl, rfl⟩ := h
    rfl
  exact hfields.comp hinj

theorem injective_hashInput :
    Function.Injective fun input : Block 32 × AuditEvent => input.1.1 ++ canonicalEventBytes input.2 := by
  rintro ⟨prev, event⟩ ⟨prev', event'⟩ heq
  obtain ⟨hprev, hevent⟩ := List.append_inj heq (prev.2.trans prev'.2.symm)
  exact Prod.ext (Subtype.ext hprev) (selfDelimiting_canonicalEventBytes.injective hevent)

theorem AuditEvents.nodup_hashed (events : AuditEvents) : events.hashed.Nodup := by
  rw [hashed, List.nodup_iff_pairwise_ne, List.pairwise_map]
  refine events.sorted.imp fun {row row'} hlt heq => ?_
  have hinput : (row.link.prev, row.toAuditEvent) = (row'.link.prev, row'.toAuditEvent) := injective_hashInput heq
  have hid : row.id = row'.id := congrArg (·.2.id) hinput
  exact Int64.lt_irrefl (hid ▸ hlt)

/-- Events of any texts are told apart by their bytes, alone and after a digest; the rows of a table are hashed from
different bytes. -/
theorem canonicalEventBytes_injective :
    Function.Injective canonicalEventBytes ∧
      (Function.Injective fun input : Block 32 × AuditEvent => input.1.1 ++ canonicalEventBytes input.2) ∧
      ∀ events : AuditEvents, events.hashed.Nodup :=
  ⟨selfDelimiting_canonicalEventBytes.injective, injective_hashInput, AuditEvents.nodup_hashed⟩

theorem injOn_entryHash {digests : AuditDigests} {events events' : AuditEvents}
    (h : Set.InjOn digests.sha256 {bytes | bytes ∈ events.hashed ++ events'.hashed}) :
    Set.InjOn digests.entryHash (inputs events.links ∪ inputs events'.links) := by
  have hmem : ∀ input ∈ inputs events.links ∪ inputs events'.links,
      input.1.1 ++ canonicalEventBytes input.2 ∈ events.hashed ++ events'.hashed := by
    rintro input (⟨link, hlink, rfl⟩ | ⟨link, hlink, rfl⟩)
    · obtain ⟨row, hrow, rfl⟩ := List.mem_map.mp hlink
      exact List.mem_append_left _ (List.mem_map.mpr ⟨row, hrow, rfl⟩)
    · obtain ⟨row, hrow, rfl⟩ := List.mem_map.mp hlink
      exact List.mem_append_right _ (List.mem_map.mpr ⟨row, hrow, rfl⟩)
  intro input hinput input' hinput' heq
  exact injective_hashInput (h (hmem _ hinput) (hmem _ hinput') heq)

/-! ## Tables that end alike -/

def AuditEvents.lastEntryHash (events : AuditEvents) : Option (Option Bytes) :=
  events.rows.getLast?.map AuditRow.entryHash

/-- A table that verifies and ends with the digest of an appended table has the rows of that table. -/
def TamperEvident (digests : AuditDigests) : Prop :=
  ∀ (calls : List (AuditCall Unit)) (repo : AuditRepository) (events' : AuditEvents),
    let events := AuditWriters.table digests calls
    Set.InjOn digests.sha256 {bytes | bytes ∈ events.hashed ++ events'.hashed} →
      (∀ bytes ∈ events.hashed ++ events'.hashed, digests.sha256 bytes ≠ auditZeroPrev) →
      events'.lastEntryHash = events.lastEntryHash → (repo.verifyChain digests events' none none).isOk = true →
      events'.events = events.events

namespace AuditEvents

variable {digests : AuditDigests} {events events' : AuditEvents} {anchor anchor' : Block 32}

theorem tips_of_lastEntryHash (h : ∀ row ∈ events.rows, row.Stored) (h' : ∀ row ∈ events'.rows, row.Stored)
    (hlast : events'.lastEntryHash = events.lastEntryHash) :
    events.links = [] ∧ events'.links = [] ∨
      events'.links ≠ [] ∧ tip anchor events.links = tip anchor' events'.links := by
  unfold lastEntryHash at hlast
  unfold links
  rcases List.eq_nil_or_concat events.rows with hnil | ⟨front, last, hrows⟩
  · rw [hnil, List.getLast?_nil, Option.map_none, Option.map_eq_none_iff, List.getLast?_eq_none_iff] at hlast
    exact .inl ⟨by rw [hnil]; rfl, by rw [hlast]; rfl⟩
  · rcases List.eq_nil_or_concat events'.rows with hnil | ⟨front', last', hrows'⟩
    · simp [hnil, hrows] at hlast
    · right
      rw [List.concat_eq_append] at hrows hrows'
      have hstored := (h last (by simp [hrows])).2
      have hstored' := (h' last' (by simp [hrows'])).2
      simp only [hrows, hrows', List.getLast?_concat, Option.map_some, Option.some.injEq, hstored, hstored'] at hlast
      simp only [hrows, hrows', List.map_append, List.map_cons, List.map_nil, tip_concat]
      exact ⟨by simp, (Subtype.ext hlast).symm⟩

theorem digest_ne_zero (hchain : Chain digests.entryHash anchor events.links)
    (hzero : ∀ bytes ∈ events.hashed, digests.sha256 bytes ≠ auditZeroPrev) :
    ∀ link ∈ events.links, link.digest ≠ auditZeroPrev := by
  intro link hlink
  rw [hchain.sound link hlink]
  obtain ⟨row, hrow, rfl⟩ := List.mem_map.mp hlink
  exact hzero _ (List.mem_map.mpr ⟨row, hrow, rfl⟩)

theorem head_prevHash (hstored : ∀ row ∈ events.rows, row.Stored)
    (hchain : Chain digests.entryHash anchor events.links) :
    ∀ row ∈ events.rows.head?, row.prevHash = some anchor.1 := by
  unfold links at hchain
  rcases hrows : events.rows with _ | ⟨first, rest⟩
  · simp
  · rw [hrows, List.map_cons] at hchain
    rcases hchain with _ | ⟨hprev, -, -⟩
    have hfirst := (hstored first (by simp [hrows])).1
    simpa [← hprev] using hfirst

end AuditEvents

theorem exists_front_of_verified {digests : AuditDigests} {calls : List (AuditCall Unit)} {repo : AuditRepository}
    {events' : AuditEvents}
    (hinj : Set.InjOn digests.sha256 {bytes | bytes ∈ (AuditWriters.table digests calls).hashed ++ events'.hashed})
    (hzero : ∀ bytes ∈ (AuditWriters.table digests calls).hashed ++ events'.hashed,
      digests.sha256 bytes ≠ auditZeroPrev)
    (hlast : events'.lastEntryHash = (AuditWriters.table digests calls).lastEntryHash)
    (hverify : (repo.verifyChain digests events' none none).isOk = true) :
    ∃ front, (AuditWriters.table digests calls).links = front ++ events'.links ∧
      ((∀ row ∈ events'.rows.head?, row.prevHash = some auditZeroPrev.1) ↔ front = []) := by
  obtain ⟨hstored, hchain⟩ : (AuditWriters.table digests calls).Linked digests := AuditWriters.linked_table calls
  obtain ⟨hrows, anchor, hchain'⟩ := AuditRepository.verifyChain_isOk.mp hverify
  have hstored' : ∀ row ∈ events'.rows, row.Stored := fun row hrow => (hrows row hrow).1
  have hfresh := AuditEvents.digest_ne_zero hchain fun bytes hbytes => hzero bytes (List.mem_append_left _ hbytes)
  have hfresh' := AuditEvents.digest_ne_zero hchain' fun bytes hbytes => hzero bytes (List.mem_append_right _ hbytes)
  rcases AuditEvents.tips_of_lastEntryHash hstored hstored' hlast with ⟨hnil, hnil'⟩ | ⟨hne, htip⟩
  · have hnone : events'.rows = [] := List.map_eq_nil_iff.mp hnil'
    exact ⟨[], by rw [hnil, hnil']; rfl, by simp [hnone]⟩
  · obtain ⟨front, hlinks, hfront⟩ := exists_append_of_fresh hchain hchain' (injOn_entryHash hinj) htip hfresh'
    refine ⟨front, hlinks, ?_⟩
    have hhead := AuditEvents.head_prevHash hstored' hchain'
    rcases hfirst : events'.rows with _ | ⟨first, rest⟩
    · exact absurd (by simp [AuditEvents.links, hfirst]) hne
    · rw [hfirst] at hhead
      have hprev : first.prevHash = some anchor.1 := hhead first rfl
      constructor
      · intro hzeroFirst
        have hanchor : anchor = auditZeroPrev := by
          have hboth := hprev.symm.trans (hzeroFirst first rfl)
          exact Subtype.ext (Option.some.inj hboth)
        refine eq_nil_of_tip_eq ?_ (hfront.trans hanchor)
        exact fun link hlink => hfresh link (hlinks ▸ List.mem_append_left _ hlink)
      · rintro rfl row hrow
        rw [← Option.some.inj hrow, hprev, ← hfront]
        rfl

/-- A table that verifies and ends like an appended one is that table just if its first row names the zero digest. -/
theorem events_eq_iff_anchored {digests : AuditDigests} {calls : List (AuditCall Unit)} {repo : AuditRepository}
    {events' : AuditEvents}
    (hinj : Set.InjOn digests.sha256 {bytes | bytes ∈ (AuditWriters.table digests calls).hashed ++ events'.hashed})
    (hzero : ∀ bytes ∈ (AuditWriters.table digests calls).hashed ++ events'.hashed,
      digests.sha256 bytes ≠ auditZeroPrev)
    (hlast : events'.lastEntryHash = (AuditWriters.table digests calls).lastEntryHash)
    (hverify : (repo.verifyChain digests events' none none).isOk = true) :
    events'.events = (AuditWriters.table digests calls).events ↔
      ∀ row ∈ events'.rows.head?, row.prevHash = some auditZeroPrev.1 := by
  obtain ⟨front, hlinks, hanchored⟩ := exists_front_of_verified hinj hzero hlast hverify
  rw [hanchored]
  constructor
  · intro heq
    have hlength := congrArg List.length heq
    rw [← AuditEvents.map_body_links, ← AuditEvents.map_body_links, hlinks] at hlength
    simp only [List.length_map, List.length_append] at hlength
    exact List.length_eq_zero_iff.mp (by omega)
  · rintro rfl
    rw [← AuditEvents.map_body_links, ← AuditEvents.map_body_links, hlinks]
    rfl

/-! ### Tables of one and of two events -/

def loginLogout : List (AuditCall Unit) :=
  [.load (), .append () (auditText "auth") (some (auditText "login")) (auditText "2026-01-01 00:00:00"),
    .append () (auditText "auth") (some (auditText "logout")) (auditText "2026-01-01 00:00:01")]

def taggedLogin : List (AuditCall Unit) :=
  [.load (), .setHmacKey () (some [7]),
    .append () (auditText "auth") (some (auditText "login")) (auditText "2026-01-01 00:00:00")]

/-- The event is another one, its digest is computed anew, and the tag is left out. -/
def untaggedLogout : AuditEvents :=
  AuditWriters.table sha2Digests
    [.load (), .append () (auditText "auth") (some (auditText "logout")) (auditText "2026-01-01 00:00:00")]

def taggedLoginLogout : List (AuditCall Unit) :=
  taggedLogin ++ [.append () (auditText "auth") (some (auditText "logout")) (auditText "2026-01-01 00:00:01")]

theorem nodup_digests :
    (((AuditWriters.table sha2Digests taggedLoginLogout).hashed ++ untaggedLogout.hashed).map
      sha2Digests.sha256).Nodup ∧
      auditZeroPrev ∉ (AuditWriters.table sha2Digests taggedLoginLogout).hashed.map sha2Digests.sha256 ∧
      ((((AuditWriters.table sha2Digests taggedLoginLogout).links ++ untaggedLogout.links).map Link.digest).map
        (sha2Digests.computeHmac [7])).Nodup := by
  decide +kernel

theorem hashed_taggedLoginLogout : (AuditWriters.table sha2Digests taggedLoginLogout).hashed =
    (AuditWriters.table sha2Digests loginLogout).hashed := rfl

theorem nodup_digests_loginLogout :
    ((AuditWriters.table sha2Digests loginLogout).hashed.map sha2Digests.sha256).Nodup :=
  nodup_digests.1.sublist ((List.sublist_append_left ..).map _)

/-! ### Two events, and the second one alone -/

/-- The table without its first row. -/
def logoutOnly : AuditEvents where
  rows := (AuditWriters.table sha2Digests loginLogout).rows.drop 1
  sorted := (AuditWriters.table sha2Digests loginLogout).sorted.drop

theorem logoutOnly_hashed : logoutOnly.hashed ⊆ (AuditWriters.table sha2Digests loginLogout).hashed :=
  List.map_subset _ (List.drop_subset 1 _)

theorem loginLogout_injOn : Set.InjOn sha2Digests.sha256
    {bytes | bytes ∈ (AuditWriters.table sha2Digests loginLogout).hashed ++ logoutOnly.hashed} := by
  have hinj : Set.InjOn sha2Digests.sha256 {bytes | bytes ∈ (AuditWriters.table sha2Digests loginLogout).hashed} :=
    List.inj_on_of_nodup_map nodup_digests_loginLogout
  exact hinj.mono fun bytes hbytes => (List.mem_append.mp hbytes).elim id fun h => logoutOnly_hashed h

theorem logoutOnly_verified :
    (∀ bytes ∈ (AuditWriters.table sha2Digests loginLogout).hashed ++ logoutOnly.hashed,
      sha2Digests.sha256 bytes ≠ auditZeroPrev) ∧
      logoutOnly.lastEntryHash = (AuditWriters.table sha2Digests loginLogout).lastEntryHash ∧
      (AuditRepository.verifyChain sha2Digests {} logoutOnly none none).isOk = true := by
  obtain ⟨hstored, hchain⟩ : (AuditWriters.table sha2Digests loginLogout).Linked sha2Digests :=
    AuditWriters.linked_table loginLogout
  refine ⟨fun bytes hbytes heq => ?_, ?_, AuditRepository.verifyChain_isOk.mpr ⟨fun row hrow => ⟨?_, ?_⟩, ?_⟩⟩
  · have hmem := (List.mem_append.mp hbytes).elim id fun h => logoutOnly_hashed h
    exact nodup_digests.2.1 (List.mem_map.mpr ⟨bytes, hmem, heq⟩)
  · have hlength : (AuditWriters.table sha2Digests loginLogout).rows.length = 2 := rfl
    unfold AuditEvents.lastEntryHash logoutOnly
    rw [List.getLast?_drop, if_neg (by omega)]
  · exact hstored row (List.mem_of_mem_drop hrow)
  · rintro k tag ⟨⟩
  · -- What is left of a chain starts at what its first row names.
    have hlinks : (AuditWriters.table sha2Digests loginLogout).links =
        (AuditWriters.table sha2Digests loginLogout).links.take 1 ++ logoutOnly.links := by
      unfold AuditEvents.links logoutOnly
      rw [List.map_drop, List.take_append_drop]
    exact ⟨_, (chain_append.mp (hlinks ▸ hchain)).2⟩

theorem not_tamperEvident : ¬ TamperEvident sha2Digests := by
  obtain ⟨hzero, hlast, hverify⟩ := logoutOnly_verified
  intro h
  have hsame := congrArg List.length (h loginLogout {} logoutOnly loginLogout_injOn hzero hlast hverify)
  have hone : logoutOnly.events.length = 1 := rfl
  have htwo : (AuditWriters.table sha2Digests loginLogout).events.length = 2 := rfl
  omega

theorem logoutOnly_eq_iff_anchored :
    logoutOnly.events = (AuditWriters.table sha2Digests loginLogout).events ↔
      ∀ row ∈ logoutOnly.rows.head?, row.prevHash = some auditZeroPrev.1 := by
  obtain ⟨hzero, hlast, hverify⟩ := logoutOnly_verified
  exact events_eq_iff_anchored loginLogout_injOn hzero hlast hverify

/-! ## Rows with tags -/

/-- Every append of the run is made with the key. -/
def AppendsUnder (k : Bytes) (s : AuditWriters Unit) : AuditCall Unit → Prop
  | .append i _ _ _ => ∀ repo, s.repos i = some repo → repo.hmacKey = some k
  | _ => True

def AuditEvents.Tagged (digests : AuditDigests) (k : Bytes) (events : AuditEvents) : Prop :=
  ∀ row ∈ events.rows, row.hmac = some (digests.computeHmac k row.link.digest).1

theorem tagged_table {digests : AuditDigests} {k : Bytes} {calls : List (AuditCall Unit)}
    (h : Runs.AllSteps (AuditWriters.step digests) (AppendsUnder k) .fresh calls) :
    (AuditWriters.table digests calls).Tagged digests k := by
  have hrun : AuditWriters.Keeps (AuditEvents.Tagged digests k) (fun _ _ => True)
      (Runs.run (AuditWriters.step digests) .fresh calls) := by
    apply h.invariant (AuditWriters.keeps_fresh (by simp [AuditEvents.Tagged, AuditEvents.empty]))
    intro s call hkeeps hkey
    apply hkeeps.step trivial fun _ _ _ _ _ => trivial
    rintro i category details createdAt repo repo' events row rfl hrepo hrow
    refine ⟨?_, trivial, fun _ _ _ _ => trivial⟩
    unfold AuditEvents.Tagged
    rw [hrow.rows]
    refine List.forall_mem_append.mpr ⟨hkeeps.1, ?_⟩
    simp [hrow.hmac, hkey repo hrepo]
  exact hrun.1

/-- What an attacker without the key can put in the place of a table. -/
def Forged (events events' : AuditEvents) : Prop :=
  events'.rows.length = events.rows.length ∧
    ∀ row' ∈ events'.rows, ∀ tag, row'.hmac = some tag → ∃ row ∈ events.rows, row.hmac = some tag

/-- A table in the place of one with tags that verifies under the key has the rows of that one. -/
def RewriteEvident (digests : AuditDigests) : Prop :=
  ∀ (k : Bytes) (calls : List (AuditCall Unit)) (repo : AuditRepository) (events' : AuditEvents),
    let events := AuditWriters.table digests calls
    Runs.AllSteps (AuditWriters.step digests) (AppendsUnder k) .fresh calls → repo.hmacKey = some k →
      Forged events events' →
      Set.InjOn digests.sha256 {bytes | bytes ∈ events.hashed ++ events'.hashed} →
      Set.InjOn (digests.computeHmac k) {digest | digest ∈ (events.links ++ events'.links).map Link.digest} →
      (repo.verifyChain digests events' none none).isOk = true → events'.events = events.events

/-- A tag that verifies in the new table stems from a row of the old one, which has the same digest then. -/
theorem Forged.exists_digest {digests : AuditDigests} {k tag : Bytes} {events events' : AuditEvents} {row' : AuditRow}
    (hforged : Forged events events') (htagged : events.Tagged digests k)
    (hhmac : Set.InjOn (digests.computeHmac k) {digest | digest ∈ (events.links ++ events'.links).map Link.digest})
    (hrow' : row' ∈ events'.rows) (htag : row'.hmac = some tag)
    (hverified : tag = (digests.computeHmac k row'.link.digest).1) :
    ∃ row ∈ events.rows, row.link.digest = row'.link.digest := by
  obtain ⟨row, hrow, hrowTag⟩ := hforged.2 row' hrow' tag htag
  refine ⟨row, hrow, ?_⟩
  rw [htagged row hrow, Option.some.injEq] at hrowTag
  apply hhmac
  · simpa [AuditEvents.links] using .inl ⟨row, hrow, rfl⟩
  · simpa [AuditEvents.links] using .inr ⟨row', hrow', rfl⟩
  · exact Subtype.ext (hrowTag.trans hverified)

/-- It does where its last row has a tag, and no row of it has the zero digest. -/
theorem links_eq_of_last_tagged {digests : AuditDigests} {k : Bytes} {calls : List (AuditCall Unit)}
    {repo : AuditRepository} {events' : AuditEvents}
    (hkeyed : Runs.AllSteps (AuditWriters.step digests) (AppendsUnder k) .fresh calls) (hkey : repo.hmacKey = some k)
    (hforged : Forged (AuditWriters.table digests calls) events')
    (hinj : Set.InjOn digests.sha256 {bytes | bytes ∈ (AuditWriters.table digests calls).hashed ++ events'.hashed})
    (hhmac : Set.InjOn (digests.computeHmac k)
      {digest | digest ∈ ((AuditWriters.table digests calls).links ++ events'.links).map Link.digest})
    (hzero : ∀ bytes ∈ events'.hashed, digests.sha256 bytes ≠ auditZeroPrev)
    (hlast : ∀ row ∈ events'.rows.getLast?, row.hmac ≠ none)
    (hverify : (repo.verifyChain digests events' none none).isOk = true) :
    events'.links = (AuditWriters.table digests calls).links := by
  obtain ⟨hstored, hchain⟩ : (AuditWriters.table digests calls).Linked digests := AuditWriters.linked_table calls
  obtain ⟨hrows, anchor, hchain'⟩ := AuditRepository.verifyChain_isOk.mp hverify
  have hfresh' := AuditEvents.digest_ne_zero hchain' hzero
  have htagged := tagged_table hkeyed
  set events := AuditWriters.table digests calls
  rcases List.eq_nil_or_concat events'.rows with hnil | ⟨front', last', hrows'⟩
  · have hnone : events.rows = [] := List.length_eq_zero_iff.mp (by rw [← hforged.1, hnil]; rfl)
    simp [AuditEvents.links, hnil, hnone]
  · rw [List.concat_eq_append] at hrows'
    have hmem' : last' ∈ events'.rows := by simp [hrows']
    obtain ⟨tag, htag⟩ := Option.ne_none_iff_exists'.mp (hlast last' (by simp [hrows']))
    obtain ⟨row, hrow, hdigest⟩ :=
      hforged.exists_digest htagged hhmac hmem' htag ((hrows last' hmem').2 k tag hkey htag)
    obtain ⟨pre, post, hsplit⟩ := List.append_of_mem hrow
    have hlinks : events.links = (pre.map AuditRow.link ++ [row.link]) ++ post.map AuditRow.link := by
      simp [AuditEvents.links, hsplit]
    have hchainPre := (chain_append.mp (hlinks ▸ hchain)).1
    have hinjPre := (injOn_entryHash hinj).mono (Set.union_subset_union_left _
      (inputs_mono (hlinks ▸ List.subset_append_left ..)))
    have htip : tip auditZeroPrev (pre.map AuditRow.link ++ [row.link]) = tip anchor events'.links := by
      simp [AuditEvents.links, hrows', hdigest]
    obtain ⟨front, hfront, -⟩ := exists_append_of_fresh hchainPre hchain' hinjPre htip hfresh'
    -- As many rows as there were: nothing is left before them or after them.
    have hlength := hforged.1
    have hlengths := congrArg List.length hfront
    rw [hsplit] at hlength
    simp only [AuditEvents.links, List.length_append, List.length_map, List.length_cons, List.length_nil]
      at hlength hlengths
    obtain rfl : front = [] := List.length_eq_zero_iff.mp (by omega)
    obtain rfl : post = [] := List.length_eq_zero_iff.mp (by omega)
    rw [hlinks, hfront]
    simp

/-! ### One event, and another one in its place -/

theorem untaggedLogout_hmac : ∀ row ∈ untaggedLogout.rows, row.hmac = none := by
  have hhmac : untaggedLogout.rows.map AuditRow.hmac = [none] := rfl
  intro row hrow
  have hmem : row.hmac ∈ [none] := hhmac ▸ List.mem_map_of_mem hrow
  exact List.mem_singleton.mp hmem

theorem verifyChain_untaggedLogout :
    (AuditRepository.verifyChain sha2Digests { hmacKey := some [7] } untaggedLogout none none).isOk = true := by
  obtain ⟨hstored, hchain⟩ : untaggedLogout.Linked sha2Digests := AuditWriters.linked_table _
  refine AuditRepository.verifyChain_isOk.mpr ⟨fun row hrow => ⟨hstored row hrow, ?_⟩, auditZeroPrev, hchain⟩
  rintro k tag - htag
  rw [untaggedLogout_hmac row hrow] at htag
  cases htag

theorem not_rewriteEvident : ¬ RewriteEvident sha2Digests := by
  intro h
  obtain ⟨hdigests, -, htags⟩ := nodup_digests
  -- The first of the two tagged events is the one that is tagged here.
  have hhashed : (AuditWriters.table sha2Digests taggedLogin).hashed =
      (AuditWriters.table sha2Digests taggedLoginLogout).hashed.take 1 := rfl
  have hlinks : (AuditWriters.table sha2Digests taggedLogin).links =
      (AuditWriters.table sha2Digests taggedLoginLogout).links.take 1 := rfl
  have hdigests' := hdigests.sublist (((List.take_sublist 1 _).append_right _).map _)
  have htags' := htags.sublist ((((List.take_sublist 1 _).append_right _).map _).map _)
  rw [← hhashed] at hdigests'
  rw [← hlinks] at htags'
  have hkeyed : Runs.AllSteps (AuditWriters.step sha2Digests) (AppendsUnder [7]) .fresh taggedLogin := by
    refine ⟨trivial, trivial, ?_, trivial⟩
    rintro repo ⟨⟩
    rfl
  have hforged : Forged (AuditWriters.table sha2Digests taggedLogin) untaggedLogout := by
    refine ⟨rfl, fun row hrow tag htag => ?_⟩
    rw [untaggedLogout_hmac row hrow] at htag
    cases htag
  have hsame := h [7] taggedLogin { hmacKey := some [7] } untaggedLogout hkeyed rfl hforged
    (List.inj_on_of_nodup_map hdigests') (List.inj_on_of_nodup_map htags') verifyChain_untaggedLogout
  have hdetails := congrArg (List.map fun event => event.details.map OwnedString.text) hsame
  exact absurd hdetails (by decide)

/-- A row whose tag is left out. -/
def AuditRow.untag (row : AuditRow) : AuditRow := { row with hmac := none }

/-- Only the last tag is still there. -/
def onlyLastTagged : AuditEvents where
  rows := (AuditWriters.table sha2Digests taggedLoginLogout).rows.mapIdx fun i row => if i = 0 then row.untag else row
  sorted := by decide +kernel

theorem appendsUnder_taggedLoginLogout :
    Runs.AllSteps (AuditWriters.step sha2Digests) (AppendsUnder [7]) .fresh taggedLoginLogout := by
  refine ⟨trivial, trivial, ?_, ?_, trivial⟩
  · rintro repo ⟨⟩
    rfl
  · rintro repo ⟨⟩
    rfl

theorem forged_onlyLastTagged : Forged (AuditWriters.table sha2Digests taggedLoginLogout) onlyLastTagged := by
  refine ⟨List.length_mapIdx, fun row' hrow' tag htag => ?_⟩
  obtain ⟨i, hi, rfl⟩ := List.mem_mapIdx.mp hrow'
  split_ifs at htag
  · cases htag
  · exact ⟨_, List.getElem_mem hi, htag⟩

theorem verifyChain_onlyLastTagged :
    (AuditRepository.verifyChain sha2Digests { hmacKey := some [7] } onlyLastTagged none none).isOk = true := by
  obtain ⟨hstored, hchain⟩ : (AuditWriters.table sha2Digests taggedLoginLogout).Linked sha2Digests :=
    AuditWriters.linked_table taggedLoginLogout
  have htagged := tagged_table appendsUnder_taggedLoginLogout
  refine AuditRepository.verifyChain_isOk.mpr ⟨fun row' hrow' => ?_, auditZeroPrev, hchain⟩
  obtain ⟨i, hi, rfl⟩ := List.mem_mapIdx.mp hrow'
  have hrow := hstored _ (List.getElem_mem hi)
  split_ifs
  · refine ⟨hrow, ?_⟩
    rintro k tag - ⟨⟩
  · refine ⟨hrow, ?_⟩
    rintro k tag ⟨⟩ htag
    rw [htagged _ (List.getElem_mem hi)] at htag
    exact (Option.some.inj htag).symm

theorem onlyLastTagged_links :
    onlyLastTagged.links = (AuditWriters.table sha2Digests taggedLoginLogout).links := by
  have hinj : Set.InjOn sha2Digests.sha256
      {bytes | bytes ∈ (AuditWriters.table sha2Digests taggedLoginLogout).hashed ++ onlyLastTagged.hashed} := by
    have hown : Set.InjOn sha2Digests.sha256
        {bytes | bytes ∈ (AuditWriters.table sha2Digests taggedLoginLogout).hashed} :=
      List.inj_on_of_nodup_map (hashed_taggedLoginLogout ▸ nodup_digests_loginLogout)
    exact hown.mono fun bytes hbytes => (List.mem_append.mp hbytes).elim id id
  have hhmac : Set.InjOn (sha2Digests.computeHmac [7])
      {digest | digest ∈ ((AuditWriters.table sha2Digests taggedLoginLogout).links ++
        onlyLastTagged.links).map Link.digest} := by
    have hown : Set.InjOn (sha2Digests.computeHmac [7])
        {digest | digest ∈ (AuditWriters.table sha2Digests taggedLoginLogout).links.map Link.digest} :=
      List.inj_on_of_nodup_map (nodup_digests.2.2.sublist (((List.sublist_append_left ..).map _).map _))
    exact hown.mono fun digest hdigest => (List.mem_append.mp (List.map_append ▸ hdigest)).elim id id
  apply links_eq_of_last_tagged appendsUnder_taggedLoginLogout rfl forged_onlyLastTagged hinj hhmac ?_ ?_
    verifyChain_onlyLastTagged
  · intro bytes hbytes heq
    exact nodup_digests.2.1 (List.mem_map.mpr ⟨bytes, hbytes, heq⟩)
  · rintro row ⟨⟩ ⟨⟩

end Pcloud
