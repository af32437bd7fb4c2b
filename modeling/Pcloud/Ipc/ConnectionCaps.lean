import Pcloud.Lib.Threads
import Pcloud.Model.Bytes

/-!
# Connection caps

Every connection is counted twice, in one counter for the process and in a table of
counters by peer. The table stands behind a lock; the counter of the process is raised
under that lock, but lowered without it when a connection ends, and the caps may change
while connections come and go.
-/

namespace Pcloud.ConnectionCaps

open Runs Threads

def MAX_IPC_CONNECTIONS : Nat := 128

def MAX_IPC_CONNECTIONS_PER_PEER : Nat := 32

/-- Where the table is not there yet it has no entries; a released lock is never poisoned. -/
structure Shared where
  globalCap : Cell Nat := ⟨MAX_IPC_CONNECTIONS, []⟩
  perPeerCap : Cell Nat := ⟨MAX_IPC_CONNECTIONS_PER_PEER, []⟩
  active : Cell Nat := ⟨0, []⟩
  locked : Bool := false
  peers : UInt32 → Option Nat := fun _ => none

/-- A thread that installs caps or serves one connection, with the locals it still needs. From
`checking` to `unlocking`, and from `leaving` to `left`, it holds the lock. -/
inductive Connection where
  | setting (global perPeer : Nat)
  | settingPerPeer (perPeer : Nat)
  | set
  | arriving (peerUid : UInt32)
  | capped (peerUid : UInt32) (globalCap : Nat)
  | locking (peerUid : UInt32) (globalCap perPeerCap : Nat)
  | checking (peerUid : UInt32) (globalCap perPeerCap : Nat)
  | counting (peerUid : UInt32) (globalCap perPeerCap : Nat)
  | loaded (peerUid : UInt32) (globalCap perPeerCap global : Nat)
  | admitting (peerUid : UInt32) (perPeerCap : Nat)
  | unlocking (guard : Option UInt32)
  | serving (peerUid : UInt32)
  | refused
  | departing (peerUid : UInt32)
  | leaving (peerUid : UInt32)
  | left
  | closed
  deriving DecidableEq

inductive Task where
  | setCaps (global perPeer : Nat)
  | connect (peerUid : UInt32)

def enter : Task → Connection
  | .setCaps global perPeer => .setting global perPeer
  | .connect peerUid => .arriving peerUid

/-- One less, as `fetch_sub` computes it. -/
def lowered (count : Nat) : Nat := if count = 0 then usizeMax else count - 1

section
variable (shared : Shared)

def insert (peerUid : UInt32) (count : Option Nat) : Shared :=
  { shared with peers := fun uid => if uid = peerUid then count else shared.peers uid }

/-- `or_insert` leaves an entry of zero behind, also where the peer is then refused. -/
def check (peerUid : UInt32) (globalCap perPeerCap : Nat) : Shared × Connection :=
  let count := (shared.peers peerUid).getD 0
  (insert shared peerUid (some count),
    if perPeerCap ≤ count then .unlocking none else .counting peerUid globalCap perPeerCap)

def count (peerUid : UInt32) (globalCap perPeerCap global : Nat) : Shared × Connection :=
  if globalCap ≤ global then
    (if shared.peers peerUid = some 0 then insert shared peerUid none else shared, .unlocking none)
  else if shared.active.value = global then
    ({ shared with active := shared.active.store (global + 1) }, .admitting peerUid perPeerCap)
  else (shared, .counting peerUid globalCap perPeerCap)

def leave (peerUid : UInt32) : Shared :=
  match shared.peers peerUid with
  | none => shared
  | some count =>
    if lowered count = 0 then insert shared peerUid none else insert shared peerUid (some (lowered count))

/-- The next step of a thread; `age` is how old the value is that a load answers with. -/
def next (connection : Connection) (age : Nat) : Shared × Connection :=
  match connection with
  | .setting global perPeer =>
    ({ shared with globalCap := shared.globalCap.store global }, .settingPerPeer (min perPeer global))
  | .settingPerPeer perPeer => ({ shared with perPeerCap := shared.perPeerCap.store perPeer }, .set)
  | .arriving peerUid => (shared, .capped peerUid (shared.globalCap.load age))
  | .capped peerUid globalCap => (shared, .locking peerUid globalCap (shared.perPeerCap.load age))
  | .locking peerUid globalCap perPeerCap =>
    if shared.locked then (shared, .locking peerUid globalCap perPeerCap)
    else ({ shared with locked := true }, .checking peerUid globalCap perPeerCap)
  | .checking peerUid globalCap perPeerCap => check shared peerUid globalCap perPeerCap
  | .counting peerUid globalCap perPeerCap =>
    (shared, .loaded peerUid globalCap perPeerCap (shared.active.load age))
  | .loaded peerUid globalCap perPeerCap global => count shared peerUid globalCap perPeerCap global
  | .admitting peerUid _ =>
    (insert shared peerUid (some ((shared.peers peerUid).getD 0 + 1)), .unlocking (some peerUid))
  | .unlocking guard =>
    ({ shared with locked := false }, match guard with | some peerUid => .serving peerUid | none => .refused)
  | .serving peerUid =>
    ({ shared with active := shared.active.store (lowered shared.active.value) }, .departing peerUid)
  | .departing peerUid =>
    if shared.locked then (shared, .departing peerUid) else ({ shared with locked := true }, .leaving peerUid)
  | .leaving peerUid => (leave shared peerUid, .left)
  | .left => ({ shared with locked := false }, .closed)
  | .set => (shared, .set)
  | .refused => (shared, .refused)
  | .closed => (shared, .closed)

end

def connections : Program Shared Connection Task Nat := ⟨enter, next⟩

/-! ## What a connection holds -/

namespace Connection

def locks : Connection → Nat
  | .checking .. | .counting .. | .loaded .. | .admitting .. | .unlocking _ | .leaving _ | .left => 1
  | .setting .. | .settingPerPeer _ | .set | .arriving _ | .capped .. | .locking .. | .serving _ | .refused |
    .departing _ | .closed => 0

/-- A place in the counter of the process. -/
def counted : Connection → Nat
  | .admitting .. | .unlocking (some _) | .serving _ => 1
  | .setting .. | .settingPerPeer _ | .set | .arriving _ | .capped .. | .locking .. | .checking .. |
    .counting .. | .loaded .. | .unlocking none | .refused | .departing _ | .leaving _ | .left | .closed => 0

/-- A place in the counter of a peer. -/
def admitted (uid : UInt32) : Connection → Nat
  | .unlocking (some peerUid) | .serving peerUid | .departing peerUid | .leaving peerUid =>
    if peerUid = uid then 1 else 0
  | .setting .. | .settingPerPeer _ | .set | .arriving _ | .capped .. | .locking .. | .checking .. |
    .counting .. | .loaded .. | .admitting .. | .unlocking none | .refused | .left | .closed => 0

/-- An entry of a peer that is not counted in it yet. -/
def entered (uid : UInt32) : Connection → Nat
  | .counting peerUid .. | .loaded peerUid .. | .admitting peerUid _ => if peerUid = uid then 1 else 0
  | .setting .. | .settingPerPeer _ | .set | .arriving _ | .capped .. | .locking .. | .checking .. |
    .unlocking _ | .serving _ | .refused | .departing _ | .leaving _ | .left | .closed => 0

def served : Connection → Nat
  | .serving _ => 1
  | .setting .. | .settingPerPeer _ | .set | .arriving _ | .capped .. | .locking .. | .checking .. |
    .counting .. | .loaded .. | .admitting .. | .unlocking _ | .refused | .departing _ | .leaving _ | .left |
    .closed => 0

def servedFor (uid : UInt32) : Connection → Nat
  | .serving peerUid => if peerUid = uid then 1 else 0
  | .setting .. | .settingPerPeer _ | .set | .arriving _ | .capped .. | .locking .. | .checking .. |
    .counting .. | .loaded .. | .admitting .. | .unlocking _ | .refused | .departing _ | .leaving _ | .left |
    .closed => 0

def Finished : Connection → Prop
  | .set | .refused | .closed => True
  | .setting .. | .settingPerPeer _ | .arriving _ | .capped .. | .locking .. | .checking .. | .counting .. |
    .loaded .. | .admitting .. | .unlocking _ | .serving _ | .departing _ | .leaving _ | .left => False

end Connection

open Connection

variable {shared : Shared} {connection : Connection} {age : Nat} {uid : UInt32}

theorem next_locks (h : locks connection ≤ shared.locked.toNat) :
    (next shared connection age).1.locked.toNat + locks connection =
      shared.locked.toNat + locks (next shared connection age).2 := by
  cases connection with
  | locking peerUid globalCap perPeerCap => cases hlocked : shared.locked <;> simp [next, locks, hlocked]
  | departing peerUid => cases hlocked : shared.locked <;> simp [next, locks, hlocked]
  | checking peerUid globalCap perPeerCap =>
    simp only [next, check, insert]
    split <;> simp [locks]
  | loaded peerUid globalCap perPeerCap global =>
    simp only [next, count, insert]
    split
    · split <;> simp [locks]
    · split <;> simp [locks]
  | unlocking guard =>
    have hlocked : shared.locked = true := by
      cases hlocked : shared.locked
      · simp [locks, hlocked] at h
      · rfl
    cases guard <;> simp [next, locks, hlocked]
  | left =>
    have hlocked : shared.locked = true := by
      cases hlocked : shared.locked
      · simp [locks, hlocked] at h
      · rfl
    simp [next, locks, hlocked]
  | leaving peerUid =>
    simp only [next, leave, insert]
    split
    · simp [locks]
    · split <;> simp [locks]
  | _ => simp [next, locks, insert]

theorem next_counted (h : counted connection ≤ shared.active.value) :
    (next shared connection age).1.active.value + counted connection =
      shared.active.value + counted (next shared connection age).2 := by
  cases connection with
  | locking peerUid globalCap perPeerCap => cases hlocked : shared.locked <;> simp [next, counted, hlocked]
  | departing peerUid => cases hlocked : shared.locked <;> simp [next, counted, hlocked]
  | checking peerUid globalCap perPeerCap =>
    simp only [next, check, insert]
    split <;> simp [counted]
  | loaded peerUid globalCap perPeerCap global =>
    simp only [next, count, insert]
    split
    · split <;> simp [counted]
    · split
      · rename_i hexchanged
        simp [counted, hexchanged]
      · simp [counted]
  | serving peerUid =>
    have hpos : 0 < shared.active.value := h
    have hlowered : lowered shared.active.value + 1 = shared.active.value := by
      unfold lowered
      split <;> omega
    simp [next, counted, hlowered]
  | unlocking guard => cases guard <;> simp [next, counted]
  | leaving peerUid =>
    simp only [next, leave, insert]
    split
    · simp [counted]
    · split <;> simp [counted]
  | _ => simp [next, counted, insert]

theorem next_admitted (h : admitted uid connection ≤ (shared.peers uid).getD 0) :
    ((next shared connection age).1.peers uid).getD 0 + admitted uid connection =
      (shared.peers uid).getD 0 + admitted uid (next shared connection age).2 := by
  cases connection with
  | locking peerUid globalCap perPeerCap => cases hlocked : shared.locked <;> simp [next, admitted, hlocked]
  | departing peerUid => cases hlocked : shared.locked <;> simp [next, admitted, hlocked]
  | checking peerUid globalCap perPeerCap =>
    have hsame : ((insert shared peerUid (some ((shared.peers peerUid).getD 0))).peers uid).getD 0 =
        (shared.peers uid).getD 0 := by
      simp only [insert]
      split <;> simp_all
    simp only [next, check, hsame]
    split <;> simp [admitted]
  | loaded peerUid globalCap perPeerCap global =>
    simp only [next, count]
    split
    · split
      · rename_i hzero
        simp only [insert, admitted]
        split <;> simp_all
      · simp [admitted]
    · split <;> simp [admitted]
  | admitting peerUid perPeerCap =>
    simp only [next, insert, admitted]
    by_cases hpeer : uid = peerUid
    · subst hpeer; simp
    · simp [hpeer, Ne.symm hpeer]
  | unlocking guard => cases guard <;> simp [next, admitted]
  | leaving peerUid =>
    by_cases hpeer : peerUid = uid
    · subst hpeer
      simp only [next, leave]
      simp only [admitted, if_true] at h
      cases hentry : shared.peers peerUid with
      | none => simp [hentry] at h
      | some count =>
        simp only [hentry, Option.getD_some] at h
        have hlowered : lowered count + 1 = count := by
          unfold lowered
          split <;> omega
        dsimp only
        split
        · rename_i hzero
          simp [insert, admitted]
          omega
        · simp [insert, admitted, hlowered]
    · have hsame : (leave shared peerUid).peers uid = shared.peers uid := by
        unfold leave
        split
        · rfl
        · split <;> simp [insert, Ne.symm hpeer]
      simp [next, admitted, hpeer, hsame]
  | _ => simp [next, admitted]

theorem next_peers (h : locks connection = 0) : (next shared connection age).1.peers = shared.peers := by
  cases connection with
  | locking peerUid globalCap perPeerCap => cases hlocked : shared.locked <;> simp [next, hlocked]
  | departing peerUid => cases hlocked : shared.locked <;> simp [next, hlocked]
  | checking => cases h
  | loaded => cases h
  | admitting => cases h
  | leaving => cases h
  | _ => rfl

/-! ## The counters -/

/-- The caps a connection has read were installed, and until it is counted there is room for it
in the entry of its peer. -/
def Asserts (G P : Nat → Prop) (shared : Shared) : Connection → Prop
  | .setting global perPeer => G global ∧ P (min perPeer global)
  | .settingPerPeer perPeer => P perPeer
  | .capped _ globalCap => G globalCap
  | .locking _ globalCap perPeerCap | .checking _ globalCap perPeerCap => G globalCap ∧ P perPeerCap
  | .counting peerUid globalCap perPeerCap | .loaded peerUid globalCap perPeerCap _ =>
    G globalCap ∧ P perPeerCap ∧ ∃ count, shared.peers peerUid = some count ∧ count < perPeerCap
  | .admitting peerUid perPeerCap =>
    P perPeerCap ∧ ∃ count, shared.peers peerUid = some count ∧ count < perPeerCap
  | .set | .arriving _ | .unlocking _ | .serving _ | .refused | .departing _ | .leaving _ | .left |
    .closed => True

/-- The shared state as the connections see it: each counter counts those that hold a place in it,
was raised below a cap, and an empty entry is there only for a connection that will use it, or
because a cap of zero was installed. -/
structure Counted (G P : Nat → Prop) (system : System Shared Connection) : Prop where
  lock : system.shared.locked.toNat = tally locks system.threads
  active : system.shared.active.value = tally counted system.threads
  peers : ∀ uid, (system.shared.peers uid).getD 0 = tally (admitted uid) system.threads
  globalCaps : ∀ cap, system.shared.globalCap.Had cap → G cap
  perPeerCaps : ∀ cap, system.shared.perPeerCap.Had cap → P cap
  asserts : ∀ connection ∈ system.threads, Asserts G P system.shared connection
  capped : system.shared.active.value = 0 ∨ ∃ cap, G cap ∧ system.shared.active.value ≤ cap
  peersCapped : ∀ uid count, system.shared.peers uid = some count → count = 0 ∨ ∃ cap, P cap ∧ count ≤ cap
  entries : ∀ uid, system.shared.peers uid = some 0 → P 0 ∨ 0 < tally (entered uid) system.threads

variable {G P : Nat → Prop}

theorem asserts_of_unlocked {shared' : Shared} (h : locks connection = 0) (ha : Asserts G P shared connection) :
    Asserts G P shared' connection := by
  cases connection with
  | counting => cases h
  | loaded => cases h
  | admitting => cases h
  | _ => exact ha

theorem next_asserts (hglobal : ∀ cap, shared.globalCap.Had cap → G cap)
    (hperPeer : ∀ cap, shared.perPeerCap.Had cap → P cap) (h : Asserts G P shared connection) :
    Asserts G P (next shared connection age).1 (next shared connection age).2 := by
  cases connection with
  | setting global perPeer => exact h.2
  | arriving peerUid => exact hglobal _ (shared.globalCap.had_load age)
  | capped peerUid globalCap => exact ⟨h, hperPeer _ (shared.perPeerCap.had_load age)⟩
  | locking peerUid globalCap perPeerCap =>
    simp only [next]
    split <;> exact h
  | checking peerUid globalCap perPeerCap =>
    simp only [next, check]
    split
    · trivial
    · rename_i hroom
      exact ⟨h.1, h.2, _, by simp only [insert, if_true], Nat.lt_of_not_le hroom⟩
  | counting peerUid globalCap perPeerCap => exact h
  | loaded peerUid globalCap perPeerCap global =>
    simp only [next, count]
    split
    · trivial
    · split
      · exact h.2
      · exact h
  | departing peerUid =>
    simp only [next]
    split <;> trivial
  | unlocking guard => cases guard <;> trivial
  | _ => trivial

theorem next_caps (shared : Shared) (connection : Connection) (age : Nat) :
    ((next shared connection age).1.globalCap = shared.globalCap ∨
      ∃ global perPeer, connection = .setting global perPeer ∧
        (next shared connection age).1.globalCap = shared.globalCap.store global) ∧
    ((next shared connection age).1.perPeerCap = shared.perPeerCap ∨
      ∃ perPeer, connection = .settingPerPeer perPeer ∧
        (next shared connection age).1.perPeerCap = shared.perPeerCap.store perPeer) := by
  cases connection with
  | setting global perPeer => exact ⟨.inr ⟨global, perPeer, rfl, rfl⟩, .inl rfl⟩
  | settingPerPeer perPeer => exact ⟨.inl rfl, .inr ⟨perPeer, rfl, rfl⟩⟩
  | locking peerUid globalCap perPeerCap =>
    simp only [next]
    split <;> exact ⟨.inl rfl, .inl rfl⟩
  | departing peerUid =>
    simp only [next]
    split <;> exact ⟨.inl rfl, .inl rfl⟩
  | loaded peerUid globalCap perPeerCap global =>
    simp only [next, count]
    split
    · split <;> exact ⟨.inl rfl, .inl rfl⟩
    · split <;> exact ⟨.inl rfl, .inl rfl⟩
  | leaving peerUid =>
    simp only [next, leave]
    split
    · exact ⟨.inl rfl, .inl rfl⟩
    · split <;> exact ⟨.inl rfl, .inl rfl⟩
  | _ => exact ⟨.inl rfl, .inl rfl⟩

theorem next_capped (h : shared.active.value = 0 ∨ ∃ cap, G cap ∧ shared.active.value ≤ cap)
    (ha : Asserts G P shared connection) (hcounted : counted connection ≤ shared.active.value) :
    (next shared connection age).1.active.value = 0 ∨
      ∃ cap, G cap ∧ (next shared connection age).1.active.value ≤ cap := by
  cases connection with
  | locking peerUid globalCap perPeerCap =>
    simp only [next]
    split <;> exact h
  | departing peerUid =>
    simp only [next]
    split <;> exact h
  | loaded peerUid globalCap perPeerCap global =>
    simp only [next, count]
    split
    · split <;> exact h
    · rename_i hroom
      split
      · refine .inr ⟨globalCap, ha.1, ?_⟩
        simp only [Cell.value_store]
        omega
      · exact h
  | serving peerUid =>
    have hpos : 0 < shared.active.value := hcounted
    simp only [next, Cell.value_store, lowered, if_neg (Nat.ne_of_gt hpos)]
    rcases h with hzero | ⟨cap, hcap, hle⟩
    · omega
    · exact .inr ⟨cap, hcap, by omega⟩
  | leaving peerUid =>
    simp only [next, leave]
    split
    · exact h
    · split <;> exact h
  | _ => exact h

theorem next_peersCapped (h : ∀ uid count, shared.peers uid = some count → count = 0 ∨ ∃ cap, P cap ∧ count ≤ cap)
    (ha : Asserts G P shared connection)
    (hadmitted : ∀ uid, admitted uid connection ≤ (shared.peers uid).getD 0) :
    ∀ uid count, (next shared connection age).1.peers uid = some count →
      count = 0 ∨ ∃ cap, P cap ∧ count ≤ cap := by
  by_cases hlocks : locks connection = 0
  · rw [next_peers hlocks]
    exact h
  intro uid count hentry
  cases connection with
  | checking peerUid globalCap perPeerCap =>
    simp only [next, check, insert] at hentry
    split at hentry
    · obtain rfl := Option.some.inj hentry
      cases hold : shared.peers peerUid with
      | none => exact .inl rfl
      | some old => exact h peerUid old hold
    · exact h uid count hentry
  | loaded peerUid globalCap perPeerCap global =>
    simp only [next, ConnectionCaps.count] at hentry
    split at hentry
    · split at hentry
      · simp only [insert] at hentry
        split at hentry
        · cases hentry
        · exact h uid count hentry
      · exact h uid count hentry
    · split at hentry <;> exact h uid count hentry
  | admitting peerUid perPeerCap =>
    simp only [next, insert] at hentry
    split at hentry
    · obtain ⟨hcap, old, hold, hroom⟩ := ha
      rw [hold] at hentry
      obtain rfl := Option.some.inj hentry
      exact .inr ⟨perPeerCap, hcap, hroom⟩
    · exact h uid count hentry
  | leaving peerUid =>
    simp only [next, leave] at hentry
    split at hentry
    · exact h uid count hentry
    · rename_i old hold
      have hpos := hadmitted peerUid
      simp only [admitted, if_true, hold, Option.getD_some] at hpos
      have hlowered : lowered old = old - 1 := if_neg (Nat.ne_of_gt hpos)
      split at hentry
      · simp only [insert] at hentry
        split at hentry
        · cases hentry
        · exact h uid count hentry
      · simp only [insert] at hentry
        split at hentry
        · obtain rfl := Option.some.inj hentry
          rcases h peerUid old hold with hzero | ⟨cap, hcap, hle⟩
          · omega
          · exact .inr ⟨cap, hcap, by omega⟩
        · exact h uid count hentry
  | counting => exact h uid count hentry
  | unlocking => exact h uid count hentry
  | left => exact h uid count hentry
  | _ => exact absurd rfl hlocks

theorem next_entries (rest : Nat) (h : shared.peers uid = some 0 → P 0 ∨ 0 < entered uid connection + rest)
    (ha : Asserts G P shared connection) (hentry : (next shared connection age).1.peers uid = some 0) :
    P 0 ∨ 0 < entered uid (next shared connection age).2 + rest := by
  cases connection with
  | checking peerUid globalCap perPeerCap =>
    simp only [next, check, insert] at hentry ⊢
    split at hentry
    · rename_i hpeer
      subst hpeer
      split
      · rename_i hfull
        have hzero : perPeerCap = 0 := by
          have hcount := Option.some.inj hentry
          omega
        exact .inl (hzero ▸ ha.2)
      · exact .inr (by simp [entered])
    · rename_i hpeer
      rcases h hentry with hzero | hrest
      · exact .inl hzero
      · refine .inr ?_
        simp only [entered] at hrest
        omega
  | loaded peerUid globalCap perPeerCap global =>
    simp only [next, ConnectionCaps.count] at hentry ⊢
    split at hentry
    · rename_i hfull
      simp only [if_pos hfull]
      split at hentry
      · simp only [insert] at hentry
        split at hentry
        · cases hentry
        · rename_i hpeer
          have hrest := h hentry
          simp only [entered, if_neg (Ne.symm hpeer)] at hrest
          exact hrest
      · rename_i hsome
        have hpeer : peerUid ≠ uid := by
          rintro rfl
          exact hsome hentry
        have hrest := h hentry
        simp only [entered, if_neg hpeer] at hrest
        exact hrest
    · rename_i hroom
      simp only [if_neg hroom]
      split at hentry
      · rename_i hexchanged
        simp only [if_pos hexchanged]
        exact h hentry
      · rename_i hraced
        simp only [if_neg hraced]
        exact h hentry
  | admitting peerUid perPeerCap =>
    simp only [next, insert] at hentry
    split at hentry
    · simp at hentry
    · rename_i hpeer
      have hrest := h hentry
      simp only [entered, if_neg (Ne.symm hpeer)] at hrest
      exact hrest
  | leaving peerUid =>
    suffices hold : shared.peers uid = some 0 from h hold
    simp only [next, leave] at hentry
    split at hentry
    · exact hentry
    · split at hentry
      · simp only [insert] at hentry
        split at hentry
        · cases hentry
        · exact hentry
      · rename_i hsome
        simp only [insert] at hentry
        split at hentry
        · exact absurd (Option.some.inj hentry) hsome
        · exact hentry
  | locking peerUid globalCap perPeerCap =>
    simp only [next] at hentry ⊢
    split <;> split at hentry <;> exact h hentry
  | departing peerUid =>
    simp only [next] at hentry ⊢
    split <;> split at hentry <;> exact h hentry
  | unlocking guard => cases guard <;> exact h hentry
  | _ => exact h hentry

theorem asserts_of_peers {shared' : Shared} (h : shared'.peers = shared.peers) (ha : Asserts G P shared connection) :
    Asserts G P shared' connection := by
  cases connection with
  | counting peerUid globalCap perPeerCap => exact ⟨ha.1, ha.2.1, h ▸ ha.2.2⟩
  | loaded peerUid globalCap perPeerCap global => exact ⟨ha.1, ha.2.1, h ▸ ha.2.2⟩
  | admitting peerUid perPeerCap => exact ⟨ha.1, h ▸ ha.2⟩
  | _ => exact ha

/-- What a task may install. -/
def Allows (G P : Nat → Prop) : Task → Prop
  | .setCaps global perPeer => G global ∧ P (min perPeer global)
  | .connect _ => True

theorem Counted.start {threads : List Connection} (h : Counted G P ⟨shared, threads⟩) {task : Task}
    (htask : Allows G P task) : Counted G P ⟨shared, threads ++ [enter task]⟩ := by
  obtain ⟨hlock, hactive, hpeers, hglobal, hperPeer, hasserts, hcapped, hpeersCapped, hentries⟩ := h
  have hlocks : locks (enter task) = 0 := by cases task <;> rfl
  have hcounted : counted (enter task) = 0 := by cases task <;> rfl
  have hadmitted : ∀ uid, admitted uid (enter task) = 0 := by cases task <;> exact fun _ => rfl
  have hentered : ∀ uid, entered uid (enter task) = 0 := by cases task <;> exact fun _ => rfl
  refine ⟨?_, ?_, fun uid => ?_, hglobal, hperPeer, ?_, hcapped, hpeersCapped, fun uid => ?_⟩
  · simpa [hlocks] using hlock
  · simpa [hcounted] using hactive
  · simpa [hadmitted] using hpeers uid
  · intro connection hmem
    rcases List.mem_append.mp hmem with hold | hnew
    · exact hasserts connection hold
    · obtain rfl := List.mem_singleton.mp hnew
      cases task with
      | setCaps global perPeer => exact htask
      | connect peerUid => trivial
  · simpa [hentered] using hentries uid

/-- While one connection holds the lock the others do not, so none relies on what it changes. -/
theorem Counted.run {before after : List Connection} (h : Counted G P ⟨shared, before ++ connection :: after⟩)
    (age : Nat) :
    Counted G P ⟨(next shared connection age).1, before ++ (next shared connection age).2 :: after⟩ := by
  obtain ⟨hlock, hactive, hpeers, hglobal, hperPeer, hasserts, hcapped, hpeersCapped, hentries⟩ := h
  have hmem : connection ∈ before ++ connection :: after := by simp
  have hassert := hasserts connection hmem
  have hlocks : locks connection ≤ shared.locked.toNat := hlock ▸ le_tally locks hmem
  have hcounted : counted connection ≤ shared.active.value := hactive ▸ le_tally counted hmem
  have hadmitted : ∀ uid, admitted uid connection ≤ (shared.peers uid).getD 0 :=
    fun uid => hpeers uid ▸ le_tally (admitted uid) hmem
  obtain ⟨hglobals, hperPeers⟩ := next_caps shared connection age
  refine ⟨tally_moved hlock (next_locks hlocks), tally_moved hactive (next_counted hcounted),
    fun uid => tally_moved (hpeers uid) (next_admitted (hadmitted uid)), ?_, ?_, ?_,
    next_capped hcapped hassert hcounted, next_peersCapped hpeersCapped hassert hadmitted, fun uid hentry => ?_⟩
  · rcases hglobals with hsame | ⟨global, perPeer, rfl, hstored⟩
    · exact hsame ▸ hglobal
    · intro cap hhad
      rcases Cell.had_store.mp (hstored ▸ hhad) with rfl | hhad
      · exact hassert.1
      · exact hglobal cap hhad
  · rcases hperPeers with hsame | ⟨perPeer, rfl, hstored⟩
    · exact hsame ▸ hperPeer
    · intro cap hhad
      rcases Cell.had_store.mp (hstored ▸ hhad) with rfl | hhad
      · exact hassert
      · exact hperPeer cap hhad
  · refine forall_mem_moved hasserts (next_asserts hglobal hperPeer) fun other hother ha => ?_
    by_cases hholds : locks connection = 0
    · exact asserts_of_peers (next_peers hholds) ha
    · have hrest := le_tally_rest locks connection hother
      have hone : shared.locked.toNat ≤ 1 := Bool.toNat_le shared.locked
      have hnone : locks other = 0 := by
        dsimp only at hlock
        omega
      exact asserts_of_unlocked hnone ha
  · have hold := hentries uid
    simp only [tally_append, tally_cons] at hold ⊢
    have hstep := next_entries (tally (entered uid) before + tally (entered uid) after)
      (fun hzero => (hold hzero).imp id fun hpos => by omega) hassert hentry
    exact hstep.imp id fun hpos => by omega

/-! ## Every schedule -/

def fresh : System Shared Connection := ⟨{}, []⟩

/-- The caps in force at some time of the schedule. -/
def InstalledGlobal (moves : List (Move Task Nat)) (cap : Nat) : Prop :=
  cap = MAX_IPC_CONNECTIONS ∨ ∃ perPeer, Move.start (.setCaps cap perPeer) ∈ moves

def InstalledPerPeer (moves : List (Move Task Nat)) (cap : Nat) : Prop :=
  cap = MAX_IPC_CONNECTIONS_PER_PEER ∨
    ∃ global perPeer, Move.start (.setCaps global perPeer) ∈ moves ∧ cap = min perPeer global

theorem counted_fresh (moves : List (Move Task Nat)) :
    Counted (InstalledGlobal moves) (InstalledPerPeer moves) fresh := by
  refine ⟨rfl, rfl, fun uid => rfl, ?_, ?_, ?_, .inl rfl, ?_, ?_⟩
  · intro cap hhad
    exact .inl (List.mem_singleton.mp hhad)
  · intro cap hhad
    exact .inl (List.mem_singleton.mp hhad)
  · intro connection hmem
    cases hmem
  · intro uid count hentry
    cases hentry
  · intro uid hentry
    cases hentry

theorem allStates_counted (moves : List (Move Task Nat)) :
    AllStates (System.step connections) (Counted (InstalledGlobal moves) (InstalledPerPeer moves)) fresh moves := by
  refine System.allStates_of_moves (Allows (InstalledGlobal moves) (InstalledPerPeer moves)) ?_
    (counted_fresh moves) (fun _ _ _ htask h => h.start htask) (fun _ _ _ _ age h => h.run age) fun _ h => h
  intro task htask
  cases task with
  | setCaps global perPeer => exact ⟨.inr ⟨perPeer, htask⟩, .inr ⟨global, perPeer, htask, rfl⟩⟩
  | connect peerUid => trivial

/-- However connections come, go and race with changes of the caps: the counter of the process is the
number of connections that hold a place in it, and no more are served, in all and for any one peer,
than a cap that was installed at some time allows. -/
theorem allStates_capped (moves : List (Move Task Nat)) :
    AllStates (System.step connections) (fun system =>
      system.shared.active.value = tally counted system.threads ∧
      (tally served system.threads = 0 ∨
        ∃ cap, InstalledGlobal moves cap ∧ tally served system.threads ≤ cap) ∧
      ∀ uid, tally (servedFor uid) system.threads = 0 ∨
        ∃ cap, InstalledPerPeer moves cap ∧ tally (servedFor uid) system.threads ≤ cap) fresh moves := by
  refine (allStates_counted moves).mono fun system h => ⟨h.active, ?_, fun uid => ?_⟩
  · have hserved : tally served system.threads ≤ tally counted system.threads :=
      tally_le_tally fun connection _ => by cases connection <;> simp [served, counted]
    rcases h.capped with hzero | ⟨cap, hcap, hle⟩
    · exact .inl (by have hactive := h.active; omega)
    · exact .inr ⟨cap, hcap, by have hactive := h.active; omega⟩
  · have hserved : tally (servedFor uid) system.threads ≤ tally (admitted uid) system.threads :=
      tally_le_tally fun connection _ => by cases connection <;> simp [servedFor, admitted]
    have hpeers := h.peers uid
    cases hentry : system.shared.peers uid with
    | none =>
      rw [hentry, Option.getD_none] at hpeers
      exact .inl (by omega)
    | some count =>
      rw [hentry, Option.getD_some] at hpeers
      rcases h.peersCapped uid count hentry with hzero | ⟨cap, hcap, hle⟩
      · exact .inl (by omega)
      · exact .inr ⟨cap, hcap, by omega⟩

/-! ## The end of all connections -/

/-- How many steps a connection has left where no other comes between. -/
def rank (shared : Shared) : Connection → Nat
  | .setting .. => 2
  | .settingPerPeer _ => 1
  | .arriving _ => 14
  | .capped .. => 13
  | .locking .. => 12
  | .checking .. => 11
  | .counting .. => 9
  | .loaded _ _ _ global => if shared.active.value = global then 8 else 10
  | .admitting .. => 7
  | .unlocking (some _) => 6
  | .serving _ => 5
  | .departing _ => 4
  | .leaving _ => 3
  | .left => 2
  | .unlocking none => 1
  | .set | .refused | .closed => 0

theorem finished_of_rank (h : rank shared connection = 0) : connection.Finished := by
  cases connection with
  | unlocking guard => cases guard <;> cases h
  | loaded peerUid globalCap perPeerCap global =>
    simp only [rank] at h
    split at h <;> cases h
  | set => trivial
  | refused => trivial
  | closed => trivial
  | _ => cases h

theorem next_rank (h : shared.locked.toNat = locks connection) (hrank : rank shared connection ≠ 0) :
    rank (next shared connection 0).1 (next shared connection 0).2 < rank shared connection := by
  cases connection with
  | locking peerUid globalCap perPeerCap =>
    have hfree : shared.locked = false := by simpa [locks] using h
    simp [next, hfree, rank]
  | departing peerUid =>
    have hfree : shared.locked = false := by simpa [locks] using h
    simp [next, hfree, rank]
  | checking peerUid globalCap perPeerCap =>
    simp only [next, check]
    split <;> simp [rank]
  | counting peerUid globalCap perPeerCap => simp [next, rank]
  | loaded peerUid globalCap perPeerCap global =>
    simp only [next, count]
    split
    · simp only [rank]
      split <;> simp
    · split
      · rename_i hexchanged
        simp [rank, hexchanged]
      · rename_i hraced
        simp [rank, hraced]
  | unlocking guard => cases guard <;> simp [next, rank]
  | set => exact absurd rfl hrank
  | refused => exact absurd rfl hrank
  | closed => exact absurd rfl hrank
  | _ => simp [next, rank]

def unfinished : Connection → Nat
  | .set | .refused | .closed => 0
  | .setting .. | .settingPerPeer _ | .arriving _ | .capped .. | .locking .. | .checking .. | .counting .. |
    .loaded .. | .admitting .. | .unlocking _ | .serving _ | .departing _ | .leaving _ | .left => 1

theorem unfinished_eq_zero : unfinished connection = 0 ↔ connection.Finished := by
  cases connection <;> simp [unfinished, Finished]

theorem Counted.exists_ready {system : System Shared Connection} (h : Counted G P system)
    (hleft : tally unfinished system.threads ≠ 0) :
    ∃ connection ∈ system.threads, unfinished connection ≠ 0 ∧
      system.shared.locked.toNat = locks connection := by
  by_cases hlocked : tally locks system.threads = 0
  · obtain ⟨connection, hmem, hunfinished⟩ := exists_of_tally_ne_zero hleft
    have hle := le_tally locks hmem
    exact ⟨connection, hmem, hunfinished, by rw [h.lock]; omega⟩
  · obtain ⟨connection, hmem, hholds⟩ := exists_of_tally_ne_zero hlocked
    have hle := le_tally locks hmem
    have hone := Bool.toNat_le system.shared.locked
    have hlock := h.lock
    refine ⟨connection, hmem, ?_, by omega⟩
    intro hfinished
    cases connection <;> simp_all [unfinished, locks]

/-- The moves of a schedule that starts nothing and reads no old values. -/
def continuing (indexes : List Nat) : List (Move Task Nat) := indexes.map fun index => .run index 0

theorem Counted.exists_finished {system : System Shared Connection} (h : Counted G P system) :
    ∃ indexes, Counted G P (Runs.run (System.step connections) system (continuing indexes)) ∧
      ∀ connection ∈ (Runs.run (System.step connections) system (continuing indexes)).threads, connection.Finished := by
  induction hleft : tally unfinished system.threads using Nat.strong_induction_on generalizing system with
  | h n ih =>
    subst hleft
    by_cases hdone : tally unfinished system.threads = 0
    · refine ⟨[], h, fun connection hmem => unfinished_eq_zero.mp ?_⟩
      have hle := le_tally unfinished hmem
      exact Nat.le_zero.mp (hdone ▸ hle)
    · obtain ⟨connection, hmem, hunfinished, hlock⟩ := h.exists_ready hdone
      obtain ⟨shared, threads⟩ := system
      obtain ⟨before, after, rfl⟩ := List.append_of_mem hmem
      have hstep : ∀ shared connection,
          Counted G P ⟨shared, before ++ connection :: after⟩ ∧ shared.locked.toNat = locks connection →
          rank shared connection ≠ 0 →
          (Counted G P ⟨(next shared connection 0).1, before ++ (next shared connection 0).2 :: after⟩ ∧
            (next shared connection 0).1.locked.toNat = locks (next shared connection 0).2) ∧
          rank (next shared connection 0).1 (next shared connection 0).2 < rank shared connection := by
        intro shared connection ⟨hcounted, hlock⟩ hrank
        have hlocks := @next_locks shared connection 0 (Nat.le_of_eq hlock.symm)
        exact ⟨⟨hcounted.run 0, by omega⟩, next_rank hlock hrank⟩
      obtain ⟨steps, shared', connection', hrun, ⟨hcounted, -⟩, hrank⟩ :=
        System.exists_run_alone connections (fun shared connection =>
          Counted G P ⟨shared, before ++ connection :: after⟩ ∧ shared.locked.toNat = locks connection)
          rank before after 0 hstep ⟨h, hlock⟩
      have hfinished : unfinished connection' = 0 := unfinished_eq_zero.mpr (finished_of_rank hrank)
      have hfewer : tally unfinished (before ++ connection' :: after) <
          tally unfinished (before ++ connection :: after) := by
        simp only [tally_append, tally_cons]
        omega
      obtain ⟨indexes, hrest⟩ := ih _ hfewer hcounted rfl
      refine ⟨List.replicate steps before.length ++ indexes, ?_⟩
      rw [continuing, List.map_append, List.map_replicate, run_append, hrun]
      exact hrest

theorem finished_holds (h : connection.Finished) (uid : UInt32) :
    locks connection = 0 ∧ counted connection = 0 ∧ admitted uid connection = 0 ∧ entered uid connection = 0 := by
  cases connection with
  | set => exact ⟨rfl, rfl, rfl, rfl⟩
  | refused => exact ⟨rfl, rfl, rfl, rfl⟩
  | closed => exact ⟨rfl, rfl, rfl, rfl⟩
  | _ => cases h

/-- No schedule leads to where the connections cannot all end, and once they all have, nothing is
held any more: an entry may only be left by a cap of zero. -/
theorem allStates_finish (moves : List (Move Task Nat)) :
    AllStates (System.step connections) (fun system =>
      ∃ indexes, let after := run (System.step connections) system (continuing indexes)
        (∀ connection ∈ after.threads, connection.Finished) ∧
        after.shared.active.value = 0 ∧ after.shared.locked = false ∧
        ∀ uid, after.shared.peers uid = none ∨
          after.shared.peers uid = some 0 ∧ InstalledPerPeer moves 0) fresh moves := by
  refine (allStates_counted moves).mono fun system h => ?_
  obtain ⟨indexes, hcounted, hfinished⟩ := h.exists_finished
  refine ⟨indexes, hfinished, ?_, ?_, fun uid => ?_⟩
  · rw [hcounted.active]
    exact tally_eq_zero fun connection hmem => (finished_holds (hfinished connection hmem) 0).2.1
  · have hlock := hcounted.lock
    rw [tally_eq_zero fun connection hmem => (finished_holds (hfinished connection hmem) 0).1] at hlock
    exact Bool.toNat_eq_zero.mp hlock
  · have hpeers := hcounted.peers uid
    rw [tally_eq_zero fun connection hmem => (finished_holds (hfinished connection hmem) uid).2.2.1] at hpeers
    cases hentry : (run (System.step connections) system (continuing indexes)).shared.peers uid with
    | none => exact .inl rfl
    | some count =>
      rw [hentry, Option.getD_some] at hpeers
      subst hpeers
      refine .inr ⟨rfl, (hcounted.entries uid hentry).resolve_right ?_⟩
      rw [tally_eq_zero fun connection hmem => (finished_holds (hfinished connection hmem) uid).2.2.2]
      exact Nat.lt_irrefl 0

end Pcloud.ConnectionCaps
