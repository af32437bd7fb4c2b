import Pcloud.Crypto.Outcomes

/-!
# The TTL of the master key

The sector operations check the age of a timestamp, and set it. A start does not set it and a stop
does not clear it. `mkdir` and the rotation do not look at it. So the age that is checked and the
time since the last use are two things.
-/

namespace Pcloud.CryptoShell

open BlockChain

variable {PrivKey : Type} (suite : CryptoSuite PrivKey)

/-- How a call gets at the master key of an Enhanced shell, if it gets that far. -/
inductive KeyAccess
  | unused
  /-- Through `require_active_key`. -/
  | checked
  /-- From the key manager. -/
  | unchecked
deriving DecidableEq

def keyAccess (s : CryptoShell PrivKey) : Call PrivKey → KeyAccess
  | .sealSector .. =>
    if s.effectiveBackend = .enhanced ∧ s.sectorsSealed < nonceBudgetCap then .checked else .unused
  | .openSector .. => if s.effectiveBackend = .enhanced then .checked else .unused
  | .mkdir .. => if s.effectiveBackend = .enhanced then .unchecked else .unused
  | .changePasswordUnlocked _ newPassword _ =>
    if s.policyIsSafe ∧ newPassword ≠ "" then .unchecked else .unused
  | _ => .unused

def usesKey (s : CryptoShell PrivKey) (turn : Turn PrivKey) : Bool :=
  match s.keyAccess turn.call with
  | .unused => false
  | .checked => (s.requireActiveKey turn.host).1.isOk
  | .unchecked => s.keys.activeKeyMaterial.isSome

/-- The calls of a session. -/
def Call.isSession : Call PrivKey → Bool
  | .start .. | .stop | .sealSector .. | .openSector .. | .mkdir .. | .changePasswordUnlocked .. => true
  | _ => false

def Call.isStart : Call PrivKey → Bool
  | .start .. => true
  | _ => false

/-- It is known, and `ttl` seconds or more ago. -/
def aged (ttl : Nat) (last : Option Nat) (now : Nat) : Bool :=
  last.any fun since => ttl ≤ (now - since) / nanosPerSec

/-- A shell, and what the calls so far and their times say of its key. -/
structure Session (PrivKey : Type) where
  shell : CryptoShell PrivKey
  /-- A start succeeded, and neither a stop nor a lapse followed. -/
  isOpen : Bool
  /-- When the successful start was that no stop has followed. -/
  startedAt : Option Nat := none
  /-- When the latest successful start or use was. -/
  lastUse : Option Nat := none
  /-- When the latest sector call was, of those since the last lapse. -/
  lastSector : Option Nat
  now : Nat := 0

def Session.ofShell (s : CryptoShell PrivKey) : Session PrivKey where
  shell := s
  isOpen := s.keys.activeKeyMaterial.isSome
  lastSector := s.keys.lastAuthenticatedAt

/-- A sector call lapses the key if it comes a TTL or more after the sector call before it. -/
def advance (ttl : Nat) (t : Session PrivKey) (turn : Turn PrivKey) : Session PrivKey :=
  let now := turn.host.instant
  let ok := t.shell.succeeds suite turn
  let sector : Bool := t.shell.keyAccess turn.call = .checked
  let lapses := sector && aged ttl t.lastSector now
  { shell := t.shell.step suite turn
    isOpen :=
      match turn.call with
      | .start .. => ok || t.isOpen
      | .stop => false
      | _ => t.isOpen && !lapses
    startedAt :=
      match turn.call with
      | .start .. => if ok then some now else t.startedAt
      | .stop => none
      | _ => t.startedAt
    lastUse := if ok && (Call.isStart turn.call || t.shell.usesKey turn) then some now else t.lastUse
    lastSector := if lapses then none else if sector then some now else t.lastSector
    now }

/-- The key is not used a TTL after the last use, and does not expire within a TTL of the start. -/
def TtlExact (ttl : Nat) (t : Session PrivKey) (turn : Turn PrivKey) : Prop :=
  (t.shell.usesKey turn = true → aged ttl t.lastUse turn.host.instant = false) ∧
    ((t.shell.exec suite turn.host turn.call).1 = .error .masterKeyExpired →
      t.startedAt.isSome = true → aged ttl t.startedAt turn.host.instant = true)

/-- Whether a call comes in time for an open key, by the order and the times of the calls before it. -/
def WithinTtl (ttl : Nat) (t : Session PrivKey) (turn : Turn PrivKey) : Prop :=
  let now := turn.host.instant
  t.isOpen = true →
    match t.shell.keyAccess turn.call, t.lastSector with
    | .unused, _ => True
    -- Nothing is checked, or no sector call was made: within a TTL of the last use.
    | .unchecked, _ | .checked, none => aged ttl t.lastUse now = false
    | .checked, some sector =>
      if t.startedAt.all (· ≤ sector) then
        -- After a sector call of this start: within a TTL of the last use, or no sooner than a TTL
        -- after that call.
        aged ttl t.lastUse now = true → aged ttl (some sector) now = true
      else
        -- The first of this start: within a TTL of the last one before the start, or no sooner than
        -- a TTL after the start.
        aged ttl (some sector) now = true → aged ttl t.startedAt now = true

/-! ## What the check lets through -/

section check

variable {suite} {host : Host} {s : CryptoShell PrivKey}

theorem isStale_eq_aged {keys : KeyManager} {now : Nat} (httl : keys.cacheTtlSecs ≠ 0) :
    keys.isStale now = aged keys.cacheTtlSecs keys.lastAuthenticatedAt now := by
  unfold KeyManager.isStale aged
  rw [if_neg httl]
  cases keys.lastAuthenticatedAt <;> simp

theorem requireActiveKey_isOk :
    (s.requireActiveKey host).1.isOk = true ↔
      s.keys.isStale host.instant = false ∧ s.keys.activeKeyMaterial.isSome = true := by
  unfold requireActiveKey KeyManager.checkAndEvictIfStale KeyManager.touch
  by_cases hstale : s.keys.isStale host.instant = true
  · simp [hstale]
  · cases hkey : s.keys.activeKeyMaterial with
    | none => simp [hstale, hkey]
    | some key => simp [hstale, hkey]

theorem sectorSecret_expired_iff :
    s.sectorSecret host = .error .masterKeyExpired ↔ s.keys.isStale host.instant = true := by
  unfold sectorSecret
  by_cases hstale : s.keys.isStale host.instant = true
  · simp [hstale]
  · simp only [hstale, Bool.false_eq_true, if_false, iff_false]
    split
    · simp
    · simp
    · split
      · simp
      · split <;> simp

theorem seal_expired_iff (nonce : Option (Block 12)) (fileSeed : Bytes) (index : UInt32) (plaintext : Bytes) :
    (s.sealSector suite host nonce fileSeed index plaintext).1 = .error .masterKeyExpired ↔
      s.effectiveBackend = .enhanced ∧ s.sectorsSealed < nonceBudgetCap ∧ s.keys.isStale host.instant = true := by
  cases hbackend : s.effectiveBackend with
  | pclsyncCompat =>
    unfold sealSector
    simp only [hbackend, if_true]
    split <;> simp
  | enhanced =>
    rw [sealSector_eq suite host hbackend]
    by_cases hcap : s.sectorsSealed ≥ nonceBudgetCap
    · simp [hcap]
    · simp only [hcap, if_false, ← sectorSecret_expired_iff, Nat.not_le.mp hcap, true_and]
      cases s.sectorSecret host with
      | error e => simp
      | ok secret =>
        dsimp only
        split <;> simp

theorem open_expired_iff (fileSeed : Bytes) (index : UInt32) (frame : Bytes) :
    (s.openSector suite host fileSeed index frame).1 = .error .masterKeyExpired ↔
      s.effectiveBackend = .enhanced ∧ s.keys.isStale host.instant = true := by
  cases hbackend : s.effectiveBackend with
  | pclsyncCompat =>
    unfold openSector
    simp only [hbackend, if_true]
    split <;> simp
  | enhanced =>
    rw [openSector_eq suite host hbackend, ← sectorSecret_expired_iff]
    cases s.sectorSecret host with
    | error e => simp
    | ok secret =>
      dsimp only
      split <;> simp

theorem registerFolder_ne_expired (parentFolderId : Option UInt64) (name : String) (localFolderId : Option UInt64) :
    (s.registerFolder parentFolderId name localFolderId).1 ≠ .error .masterKeyExpired := by
  unfold registerFolder
  split
  · split <;> simp
  · simp

theorem mkdirPclsyncCompat_ne_expired (symKey : Option SymKeyVer1) (parentFolderId : Option UInt64) (name : String)
    (localFolderId : Option UInt64) :
    (s.mkdirPclsyncCompat suite symKey parentFolderId name localFolderId).1 ≠ .error .masterKeyExpired := by
  unfold mkdirPclsyncCompat
  repeat' split
  all_goals simp only [ne_eq, Except.error.injEq, reduceCtorEq, not_false_eq_true]
  -- The registry is the last to be asked.
  rename_i hregister
  rintro rfl
  exact registerFolder_ne_expired _ _ localFolderId (congrArg Prod.fst hregister)

theorem mkdir_ne_expired (symKey : Option SymKeyVer1) (parentFolderId : Option UInt64) (name : String)
    (localFolderId : Option UInt64) :
    (s.mkdir suite symKey parentFolderId name localFolderId).1 ≠ .error .masterKeyExpired := by
  unfold mkdir
  split
  · split
    · rename_i hcompat
      dsimp only
      intro heq
      rw [Except.error.inj heq] at hcompat
      exact mkdirPclsyncCompat_ne_expired symKey parentFolderId name localFolderId (congrArg Prod.fst hcompat)
    · simp
  · split
    · simp
    · split
      · simp
      · exact registerFolder_ne_expired parentFolderId _ localFolderId

theorem changePasswordUnlocked_ne_expired (newSalt : Block 16) (newPassword : String) (flags : UInt64) :
    (s.changePasswordUnlocked suite host newSalt newPassword flags).1 ≠ .error .masterKeyExpired := by
  intro h
  simpa using changePasswordUnlocked_answers suite host h

theorem start_ne_expired (password : String) (expected : Option CryptoBackend) :
    (s.startInner suite host password expected).1 ≠ .error .masterKeyExpired := by
  rw [startInner_eq]
  split
  · rename_i e hcase
    simpa using (startGuard_answers hcase).2
  · split <;> simp

theorem expired_iff {call : Call PrivKey} (hcall : Call.isSession call = true) :
    (s.exec suite host call).1 = .error .masterKeyExpired ↔
      s.keyAccess call = .checked ∧ s.keys.isStale host.instant = true := by
  have hreply {α : Type} (wrap : α → Answer) (outcome : Except CryptoError α × CryptoShell PrivKey) :
      (reply wrap outcome).1 = .error .masterKeyExpired ↔ outcome.1 = .error .masterKeyExpired := by
    obtain ⟨answer, s'⟩ := outcome
    cases answer <;> simp [reply, Except.map]
  cases call with
  | sealSector nonce fileSeed index plaintext =>
    unfold exec keyAccess
    rw [hreply, seal_expired_iff]
    by_cases hreach : s.effectiveBackend = .enhanced ∧ s.sectorsSealed < nonceBudgetCap
    · simp [hreach]
    · simp only [hreach, if_false, reduceCtorEq, false_and, iff_false]
      exact fun h => hreach ⟨h.1, h.2.1⟩
  | openSector fileSeed index frame =>
    unfold exec keyAccess
    rw [hreply, open_expired_iff]
    by_cases hreach : s.effectiveBackend = .enhanced
    · simp [hreach]
    · simp [hreach]
  | mkdir symKey parentFolderId name localFolderId =>
    unfold exec keyAccess
    rw [hreply]
    have hne := @mkdir_ne_expired _ suite s symKey parentFolderId name localFolderId
    dsimp only
    split <;> simp [hne]
  | changePasswordUnlocked newSalt newPassword flags =>
    unfold exec keyAccess
    rw [hreply]
    have hne := @changePasswordUnlocked_ne_expired _ suite host s newSalt newPassword flags
    dsimp only
    split <;> simp [hne]
  | start password expected =>
    unfold exec keyAccess
    rw [hreply]
    simp [start_ne_expired]
  | stop => simp [exec, keyAccess]
  | _ => cases hcall

theorem usesKey_of_succeeds {call : Call PrivKey} (hbackend : s.effectiveBackend = .enhanced)
    (hcall : Call.isSession call = true) (hok : s.succeeds suite ⟨host, call⟩ = true) :
    Call.isStart call = true ∨ call = .stop ∨ s.usesKey ⟨host, call⟩ = true := by
  have hsecret {secret : Bytes} (h : s.sectorSecret host = .ok secret) : (s.requireActiveKey host).1.isOk = true := by
    rw [requireActiveKey_isOk]
    unfold sectorSecret at h
    cases hstale : s.keys.isStale host.instant with
    | true => simp [hstale] at h
    | false =>
      cases hkey : s.keys.activeKeyMaterial with
      | none => simp [hstale, hkey] at h
      | some key => exact ⟨rfl, rfl⟩
  unfold succeeds exec at hok
  unfold usesKey keyAccess
  cases call with
  | sealSector nonce fileSeed index plaintext =>
    right; right
    simp only [isOk_reply] at hok
    rw [sealSector_eq suite host hbackend] at hok
    by_cases hcap : s.sectorsSealed ≥ nonceBudgetCap
    · simp [hcap] at hok
    · cases hcase : s.sectorSecret host with
      | error e => simp [hcap, hcase] at hok
      | ok secret => simp [hbackend, Nat.not_le.mp hcap, hsecret hcase]
  | openSector fileSeed index frame =>
    right; right
    simp only [isOk_reply] at hok
    rw [openSector_eq suite host hbackend] at hok
    cases hcase : s.sectorSecret host with
    | error e => simp [hcase] at hok
    | ok secret => simp [hbackend, hsecret hcase]
  | mkdir symKey parentFolderId name localFolderId =>
    right; right
    simp only [isOk_reply] at hok
    unfold mkdir at hok
    cases hkey : s.keys.activeKeyMaterial with
    | none => simp [hbackend, hkey] at hok
    | some key => simp [hbackend]
  | changePasswordUnlocked newSalt newPassword flags =>
    right; right
    simp only [isOk_reply] at hok
    have hpolicy : s.policyIsSafe = true := by
      by_contra hsafe
      have hrisk : s.policyIsSafe = false := by simpa using hsafe
      simp [changePasswordUnlocked, hrisk] at hok
    rcases s.changePasswordUnlocked_cases suite host newPassword newSalt flags with
      ⟨e, hfail, -⟩ | ⟨staged, hkey, hnew, -, key, hdone⟩
    · simp [hfail] at hok
    · simp [hpolicy, hnew, hkey]
  | start password expected => exact .inl rfl
  | stop => exact .inr (.inl rfl)
  | _ => cases hcall

end check

/-! ## Sessions -/

/-- What a session call does to the key of an Enhanced shell. -/
structure KeyStep (turn : Turn PrivKey) (s s' : CryptoShell PrivKey) : Prop where
  enhanced : s'.effectiveBackend = .enhanced
  resident : s'.keys.activeKeyMaterial.isSome =
    match turn.call with
    | .start .. => s.succeeds suite turn || s.keys.activeKeyMaterial.isSome
    | .stop => false
    | _ => s.keys.activeKeyMaterial.isSome &&
        !(decide (s.keyAccess turn.call = .checked) && s.keys.isStale turn.host.instant)
  stamp : s'.keys.lastAuthenticatedAt =
    if decide (s.keyAccess turn.call = .checked) && s.keys.isStale turn.host.instant then none
    else if s.keyAccess turn.call = .checked then some turn.host.instant
    else s.keys.lastAuthenticatedAt

section sessions

variable {suite} {s : CryptoShell PrivKey}

theorem Touched.ttl {host : Host} {s' : CryptoShell PrivKey} (h : Touched host s s') :
    s'.keys.cacheTtlSecs = s.keys.cacheTtlSecs := by
  cases h with
  | used => exact s.afterUse_ttl host
  | reserved => exact s.afterUse_ttl host
  | same => rfl
  | registered => rfl
  | cached => rfl

theorem step_ttl {turn : Turn PrivKey} (hcall : Call.isSession turn.call = true) :
    (s.step suite turn).keys.cacheTtlSecs = s.keys.cacheTtlSecs := by
  obtain ⟨host, call⟩ := turn
  cases call with
  | sealSector | openSector | mkdir => exact Touched.ttl (s.touched_step suite rfl)
  | changePasswordUnlocked newSalt newPassword flags =>
    show (s.changePasswordUnlocked suite host newSalt newPassword flags).2.keys.cacheTtlSecs = _
    rcases s.changePasswordUnlocked_cases suite host newPassword newSalt flags with
      ⟨e, hfail, -⟩ | ⟨staged, -, -, -, key, hok⟩
    · rw [hfail]
    · rw [hok]
      rfl
  | start password expected =>
    show (s.startInner suite host password expected).2.keys.cacheTtlSecs = _
    rw [startInner_eq]
    split
    · rfl
    · split
      · unfold startedWith
        split <;> rfl
      · rfl
  | stop => rfl
  | _ => cases hcall

theorem afterUse_enhanced {host : Host} (henhanced : s.effectiveBackend = .enhanced) :
    (s.afterUse host).effectiveBackend = .enhanced := by
  rw [← henhanced]
  unfold afterUse
  split <;> rfl

theorem afterUse_key {host : Host} :
    (s.afterUse host).keys.activeKeyMaterial.isSome =
        (s.keys.activeKeyMaterial.isSome && !s.keys.isStale host.instant) ∧
      (s.afterUse host).keys.lastAuthenticatedAt =
        if s.keys.isStale host.instant then none else some host.instant := by
  unfold afterUse
  cases s.keys.isStale host.instant with
  | true => simp
  | false => simp

section

variable {host : Host} (henhanced : s.effectiveBackend = .enhanced)

include henhanced

theorem keyStep_start (password : String) (expected : Option CryptoBackend) :
    KeyStep suite ⟨host, .start password expected⟩ s (s.step suite ⟨host, .start password expected⟩) := by
  have haccess : s.keyAccess (.start password expected) = .unused := rfl
  have hfails {e : CryptoError} {s' : CryptoShell PrivKey} (h : s.startInner suite host password expected = (.error e, s'))
      (hbackend : s'.backend = s.backend) (hkeys : s'.keys = s.keys) :
      KeyStep suite ⟨host, .start password expected⟩ s (s.step suite ⟨host, .start password expected⟩) := by
    have hstep : s.step suite ⟨host, .start password expected⟩ = s' := congrArg Prod.snd h
    have hok : s.succeeds suite ⟨host, .start password expected⟩ = false := by
      unfold succeeds exec
      rw [isOk_reply, h]
      rfl
    constructor
    · rw [hstep, ← henhanced]
      unfold effectiveBackend
      rw [hbackend, hkeys]
    · simp [hstep, hkeys, hok]
    · simp [hstep, hkeys, haccess]
  have hinner := s.startInner_eq suite host password expected
  split at hinner
  · exact hfails hinner rfl rfl
  · split at hinner
    · have hstep := congrArg Prod.snd hinner
      change s.step suite ⟨host, .start password expected⟩ = _ at hstep
      have hok : s.succeeds suite ⟨host, .start password expected⟩ = true := by
        unfold succeeds exec
        rw [isOk_reply, hinner]
        rfl
      constructor
      · rw [hstep, startedWith, henhanced]
        rfl
      · simp [hstep, hok, startedWith, henhanced]
      · simp [hstep, haccess, startedWith, henhanced, recordUnlock]
    · exact hfails hinner rfl rfl

theorem keyStep_changePasswordUnlocked (newSalt : Block 16) (newPassword : String) (flags : UInt64) :
    KeyStep suite ⟨host, .changePasswordUnlocked newSalt newPassword flags⟩ s
      (s.step suite ⟨host, .changePasswordUnlocked newSalt newPassword flags⟩) := by
  have haccess : s.keyAccess (.changePasswordUnlocked newSalt newPassword flags) ≠ .checked := by
    show (if s.policyIsSafe ∧ newPassword ≠ "" then KeyAccess.unchecked else .unused) ≠ .checked
    split <;> simp
  rcases s.changePasswordUnlocked_cases suite host newPassword newSalt flags with
    ⟨e, hfail, -⟩ | ⟨staged, hresident, -, -, key, hok⟩
  · have hstep : s.step suite ⟨host, .changePasswordUnlocked newSalt newPassword flags⟩ = s :=
      congrArg Prod.snd hfail
    constructor
    · rw [hstep]
      exact henhanced
    · simp [hstep, haccess]
    · simp [hstep, haccess]
  · have hstep := congrArg Prod.snd hok
    change s.step suite ⟨host, .changePasswordUnlocked newSalt newPassword flags⟩ = _ at hstep
    constructor
    · rw [hstep]
      unfold effectiveBackend commitRotation at *
      cases hbackend : s.backend with
      | none => simp
      | some b => simpa [hbackend] using henhanced
    · simp [hstep, haccess, commitRotation, hresident]
    · simp [hstep, haccess, commitRotation]

theorem keyStep_sealSector (nonce : Option (Block 12)) (fileSeed : Bytes) (index : UInt32) (plaintext : Bytes) :
    KeyStep suite ⟨host, .sealSector nonce fileSeed index plaintext⟩ s
      (s.step suite ⟨host, .sealSector nonce fileSeed index plaintext⟩) := by
  rcases s.sealSector_cases suite host henhanced nonce fileSeed index plaintext with
    ⟨hcap, hsame⟩ | ⟨hcap, ⟨e, -, huse⟩ | ⟨secret, -, ⟨frame, -, huse⟩ | ⟨e, huse⟩⟩⟩
  · have haccess : s.keyAccess (.sealSector nonce fileSeed index plaintext) = .unused :=
      if_neg fun h => absurd h.2 (Nat.not_lt.mpr hcap)
    have hstep : s.step suite ⟨host, .sealSector nonce fileSeed index plaintext⟩ = s := congrArg Prod.snd hsame
    constructor
    · rw [hstep]
      exact henhanced
    · simp [hstep, haccess]
    · simp [hstep, haccess]
  all_goals
    have haccess : s.keyAccess (.sealSector nonce fileSeed index plaintext) = .checked :=
      if_pos ⟨henhanced, hcap⟩
    have hstep := congrArg Prod.snd huse
    change s.step suite ⟨host, .sealSector nonce fileSeed index plaintext⟩ = _ at hstep
    constructor
    · rw [hstep]
      exact afterUse_enhanced henhanced
    · simp [hstep, haccess, s.afterUse_key.1]
    · simp [hstep, haccess, s.afterUse_key.2]

theorem keyStep {call : Call PrivKey} (hcall : Call.isSession call = true) :
    KeyStep suite ⟨host, call⟩ s (s.step suite ⟨host, call⟩) := by
  cases call with
  | sealSector nonce fileSeed index plaintext => exact keyStep_sealSector henhanced nonce fileSeed index plaintext
  | openSector fileSeed index frame =>
    have haccess : s.keyAccess (.openSector fileSeed index frame) = .checked := if_pos henhanced
    have hstep : s.step suite ⟨host, .openSector fileSeed index frame⟩ = s.afterUse host :=
      congrArg Prod.snd (s.openSector_eq suite host henhanced fileSeed index frame)
    constructor
    · rw [hstep]
      exact afterUse_enhanced henhanced
    · simp [hstep, haccess, s.afterUse_key.1]
    · simp [hstep, haccess, s.afterUse_key.2]
  | mkdir symKey parentFolderId name localFolderId =>
    obtain ⟨folders, next, hmkdir⟩ := s.mkdir_snd suite symKey parentFolderId name localFolderId
    have haccess : s.keyAccess (.mkdir symKey parentFolderId name localFolderId) = .unchecked := if_pos henhanced
    have hstep : s.step suite ⟨host, .mkdir symKey parentFolderId name localFolderId⟩ =
      { s with folders := folders, nextLocalFolderId := next } := hmkdir
    constructor
    · rw [hstep]
      exact henhanced
    · simp [hstep, haccess]
    · simp [hstep, haccess]
  | changePasswordUnlocked newSalt newPassword flags =>
    exact keyStep_changePasswordUnlocked henhanced newSalt newPassword flags
  | start password expected => exact keyStep_start henhanced password expected
  | stop =>
    constructor
    · exact henhanced
    · rfl
    · simp [step, exec, stop, keyAccess]
  | _ => cases hcall

end

end sessions

/-! ## Runs -/

section runs

variable {suite} {ttl : Nat} {t : Session PrivKey} {turn : Turn PrivKey}

theorem aged_of_le {since since' now now' : Nat} (h : aged ttl (some since) now = true) (hsince : since' ≤ since)
    (hnow : now ≤ now') : aged ttl (some since') now' = true := by
  simp only [aged, Option.any_some, decide_eq_true_eq] at h ⊢
  exact h.trans (Nat.div_le_div_right (by omega))

/-- What the calls so far and their times say of the key is so. -/
structure KeyTracked (ttl : Nat) (t : Session PrivKey) : Prop where
  enhanced : t.shell.effectiveBackend = .enhanced
  ttl_eq : t.shell.keys.cacheTtlSecs = ttl
  resident : t.shell.keys.activeKeyMaterial.isSome = t.isOpen
  stamp : t.shell.keys.lastAuthenticatedAt = t.lastSector
  /-- A key that no stop has closed has lapsed, and not within a TTL of its start. -/
  lapsed : t.isOpen = false → t.startedAt.isSome = true → aged ttl t.startedAt t.now = true
  used : ∀ start, t.startedAt = some start → ∃ use, t.lastUse = some use ∧ start ≤ use
  past : ∀ use, t.lastUse = some use → use ≤ t.now

theorem KeyTracked.isStale (h : KeyTracked ttl t) (hpos : 0 < ttl) (now : Nat) :
    t.shell.keys.isStale now = aged ttl t.lastSector now := by
  have httl := h.ttl_eq
  rw [isStale_eq_aged (by omega), httl, h.stamp]

theorem KeyTracked.ttlExact_iff (h : KeyTracked ttl t) (hpos : 0 < ttl) (hcall : Call.isSession turn.call = true)
    (hnow : t.now ≤ turn.host.instant) : TtlExact suite ttl t turn ↔ WithinTtl ttl t turn := by
  unfold TtlExact WithinTtl usesKey
  rw [expired_iff hcall, h.isStale hpos]
  cases haccess : t.shell.keyAccess turn.call with
  | unused => simp
  | unchecked => simp [h.resident]
  | checked =>
    simp only [true_and, requireActiveKey_isOk, h.isStale hpos, h.resident]
    cases hopen : t.isOpen with
    | false =>
      refine iff_of_true ⟨by simp, fun _ hstart => ?_⟩ (by simp)
      obtain ⟨start, hsome⟩ := Option.isSome_iff_exists.mp hstart
      have hlapsed := h.lapsed hopen hstart
      rw [hsome] at hlapsed ⊢
      exact aged_of_le hlapsed le_rfl hnow
    | true =>
      rcases hsector : t.lastSector with _ | sector
      · simp [aged]
      · simp only [and_true, forall_const]
        split
        · rename_i hafter
          -- The start was before the sector call, so the key does not expire too soon.
          have hexpire : aged ttl (some sector) turn.host.instant = true → t.startedAt.isSome = true →
              aged ttl t.startedAt turn.host.instant = true := by
            intro hstale hstart
            obtain ⟨start, hsome⟩ := Option.isSome_iff_exists.mp hstart
            rw [hsome] at hafter ⊢
            exact aged_of_le hstale (by simpa using hafter) le_rfl
          rw [and_iff_left hexpire, ← not_imp_not, Bool.not_eq_false, Bool.not_eq_false]
        · rename_i hbefore
          rcases hsome : t.startedAt with _ | start
          · simp [hsome] at hbefore
          obtain ⟨use, huse, hle⟩ := h.used start hsome
          rw [hsome, Option.all_some, decide_eq_true_eq, Nat.not_le] at hbefore
          -- The start was a use after the sector call, so the key is not used too late.
          have hevict : aged ttl (some sector) turn.host.instant = false →
              aged ttl t.lastUse turn.host.instant = false := by
            intro hfresh
            by_contra hlate
            rw [huse, Bool.not_eq_false] at hlate
            rw [aged_of_le hlate (by omega) le_rfl] at hfresh
            cases hfresh
          rw [and_iff_right hevict]
          simp

theorem KeyTracked.step (h : KeyTracked ttl t) (hpos : 0 < ttl) (hcall : Call.isSession turn.call = true)
    (hnow : t.now ≤ turn.host.instant) (hexact : TtlExact suite ttl t turn) :
    KeyTracked ttl (advance suite ttl t turn) := by
  obtain ⟨host, call⟩ := turn
  have hkey : KeyStep suite ⟨host, call⟩ t.shell (t.shell.step suite ⟨host, call⟩) := keyStep h.enhanced hcall
  have hresident := hkey.resident
  have hstamp := hkey.stamp
  simp only [h.resident, h.stamp, h.isStale hpos] at hresident hstamp
  refine
    { enhanced := hkey.enhanced
      ttl_eq := (step_ttl hcall).trans h.ttl_eq
      resident := ?_
      stamp := ?_
      lapsed := ?_
      used := ?_
      past := ?_ }
  · unfold advance
    rw [hresident]
  · unfold advance
    rw [hstamp]
    simp
  · have hold : t.isOpen = false → t.startedAt.isSome = true → aged ttl t.startedAt host.instant = true := by
      intro hclosed hstart
      obtain ⟨start, hsome⟩ := Option.isSome_iff_exists.mp hstart
      have hlapsed := h.lapsed hclosed hstart
      rw [hsome] at hlapsed ⊢
      exact aged_of_le hlapsed le_rfl hnow
    have hlapses : (decide (t.shell.keyAccess call = .checked) && aged ttl t.lastSector host.instant) = true →
        t.startedAt.isSome = true → aged ttl t.startedAt host.instant = true := by
      intro hlapses
      obtain ⟨hchecked, hstale⟩ := (Bool.and_eq_true _ _).mp hlapses
      exact hexact.2 ((expired_iff hcall).mpr ⟨of_decide_eq_true hchecked, (h.isStale hpos _).trans hstale⟩)
    have hrest : (t.isOpen &&
        !(decide (t.shell.keyAccess call = .checked) && aged ttl t.lastSector host.instant)) = false →
        t.startedAt.isSome = true → aged ttl t.startedAt host.instant = true := by
      intro hclosed
      rcases (Bool.and_eq_false_iff).mp hclosed with hclosed | hlapsed
      · exact hold hclosed
      · exact hlapses (by simpa using hlapsed)
    unfold advance
    cases call with
    | start password expected =>
      dsimp only
      intro hclosed
      obtain ⟨hfails, hclosed⟩ := (Bool.or_eq_false_iff).mp hclosed
      simpa [hfails] using hold hclosed
    | stop => simp
    | _ => exact hrest
  · have hlater : ∀ start, t.startedAt = some start →
        ∃ use, (advance suite ttl t ⟨host, call⟩).lastUse = some use ∧ start ≤ use := by
      intro start hstart
      obtain ⟨use, huse, hle⟩ := h.used start hstart
      unfold advance
      dsimp only
      split
      · exact ⟨host.instant, rfl, hle.trans ((h.past use huse).trans hnow)⟩
      · exact ⟨use, huse, hle⟩
    cases call with
    | start password expected =>
      intro start hstart
      rcases hok : t.shell.succeeds suite ⟨host, .start password expected⟩ with _ | _
      · exact hlater start (by simpa [advance, hok] using hstart)
      · refine ⟨host.instant, by simp [advance, hok, Call.isStart], ?_⟩
        have hnew : some host.instant = some start := by simpa [advance, hok] using hstart
        exact (Option.some.inj hnew).ge
    | stop =>
      intro start hstart
      cases hstart
    | _ => exact hlater
  · intro use huse
    unfold advance at huse ⊢
    dsimp only at huse ⊢
    split at huse
    · exact (Option.some.inj huse).ge
    · exact (h.past use huse).trans hnow

theorem keyTracked_ofShell {s : CryptoShell PrivKey} (henhanced : s.effectiveBackend = .enhanced)
    (httl : s.keys.cacheTtlSecs = ttl) : KeyTracked ttl (Session.ofShell s) where
  enhanced := henhanced
  ttl_eq := httl
  resident := rfl
  stamp := rfl
  lapsed := by simp [Session.ofShell]
  used := by simp [Session.ofShell]
  past := by simp [Session.ofShell]

theorem allSteps_ordered {turns : List (Turn PrivKey)} (hpast : ∀ turn ∈ turns, t.now ≤ turn.host.instant)
    (htimes : turns.Pairwise fun a b => a.host.instant ≤ b.host.instant) :
    Runs.AllSteps (advance suite ttl) (fun t turn => t.now ≤ turn.host.instant) t turns := by
  induction turns generalizing t with
  | nil => trivial
  | cons turn turns ih =>
    rw [List.pairwise_cons] at htimes
    exact ⟨hpast turn List.mem_cons_self, ih htimes.1 htimes.2⟩

end runs

/-- In a session at non-decreasing times the TTL is exact just if every call comes in time. -/
theorem ttl_exact_iff {ttl : Nat} (hpos : 0 < ttl) {s : CryptoShell PrivKey}
    (henhanced : s.effectiveBackend = .enhanced) (httl : s.keys.cacheTtlSecs = ttl)
    {turns : List (Turn PrivKey)} (hcalls : ∀ turn ∈ turns, Call.isSession turn.call = true)
    (htimes : turns.Pairwise fun a b => a.host.instant ≤ b.host.instant) :
    Runs.AllSteps (advance suite ttl) (TtlExact suite ttl) (Session.ofShell s) turns ↔
      Runs.AllSteps (advance suite ttl) (WithinTtl ttl) (Session.ofShell s) turns := by
  have hordered : Runs.AllSteps (advance suite ttl) (fun t turn => t.now ≤ turn.host.instant)
      (Session.ofShell s) turns := allSteps_ordered (fun _ _ => Nat.zero_le _) htimes
  refine Runs.allSteps_congr_under (hordered.and (Runs.allSteps_of_calls hcalls))
    (keyTracked_ofShell henhanced httl) ?_ ?_
  · rintro t turn h ⟨hnow, hcall⟩
    exact h.ttlExact_iff hpos hcall hnow
  · rintro t turn h ⟨hnow, hcall⟩ hexact
    exact h.step hpos hcall hnow hexact

def sealAt (secs : Nat) : Turn Bytes :=
  ⟨⟨secs, secs * nanosPerSec, nullKms⟩, .sealSector (some (Block.ofBytes 12 [])) [] 0 [1]⟩

def startAt (secs : Nat) : Turn Bytes := ⟨⟨secs, secs * nanosPerSec, nullKms⟩, .start "a" none⟩

def stopAt (secs : Nat) : Turn Bytes := ⟨⟨secs, secs * nanosPerSec, nullKms⟩, .stop⟩

/-- A key is used a TTL after the start, and another is called expired a second after its start. -/
theorem ttl_not_exact :
    ¬ Runs.AllSteps (advance echoSuite 300) (TtlExact echoSuite 300) (Session.ofShell plainProfile)
        [startAt 0, sealAt 301] ∧
      ¬ Runs.AllSteps (advance echoSuite 300) (TtlExact echoSuite 300) (Session.ofShell plainProfile)
        [startAt 0, sealAt 1, stopAt 2, startAt 400, sealAt 401] := by
  constructor
  · rintro ⟨-, ⟨huse, -⟩, -⟩
    exact absurd (huse (by decide)) (by decide)
  · rintro ⟨-, -, -, -, ⟨-, hexpire⟩, -⟩
    exact absurd (hexpire (by decide) (by decide)) (by decide)

/-- A second session that seals within a TTL of the first one's last seal, and keeps on. -/
theorem ttl_exact_iff_short :
    let turns := [startAt 0, sealAt 1, stopAt 2, startAt 200, sealAt 201, sealAt 500]
    Runs.AllSteps (advance echoSuite 300) (TtlExact echoSuite 300) (Session.ofShell plainProfile) turns ↔
      Runs.AllSteps (advance echoSuite 300) (WithinTtl 300) (Session.ofShell plainProfile) turns :=
  @ttl_exact_iff _ echoSuite 300 (by decide) plainProfile rfl rfl _ (by decide) (by decide)

end Pcloud.CryptoShell
