import Pcloud.Proto.HttpFraming

/-!
# Downloads to a path (`download_to_path` of `pcloud-backends/src/transfer_backend.rs`)

The hosts of a link are tried in turn, and all of them write to one file.
-/

namespace Pcloud

structure DownloadLink where
  path : String
  hosts : List String
  downloadTag : Option String
deriving DecidableEq

inductive TransferMode
  | development
  | network
deriving DecidableEq

def splitHostPort (host : String) : String × Option Nat :=
  -- `rsplit_once(':')`: the text after the last colon, and the one before it.
  let text := host.toList.reverse
  if ':' ∈ text then
    match parseUnsigned 10 (2 ^ 16 - 1) (text.takeWhile (· ≠ ':')).reverse with
    | some port => (String.ofList ((text.dropWhile (· ≠ ':')).drop 1).reverse, some port)
    | none => (host, none)
  else (host, none)

def DownloadLink.signed (link : DownloadLink) (host : String) : SignedDownload :=
  let (host, port) := splitHostPort host
  { host, port, path := link.path, dwltag := link.downloadTag, range := none }

section

variable (parseRetryAfter : String → Option Nat) (sha256 : Bytes → Bytes) (servers : Servers)
variable (config : HttpDownloadConfig) (link : DownloadLink)

/-- The answer of the host that is tried as number `n`. -/
def hostAnswer (n : Nat) (host : String) : HttpAnswer :=
  let signed := link.signed host
  servers n signed.host (portOf signed config) (buildRequest signed)

/-- The loop over the hosts, and the file after it. -/
def tryHosts : List String → Nat → Option HttpDownloadError → Bytes →
    Except HttpDownloadError (SignedDownload × Nat) × Option Bytes
  | [], _, lastError, _ => (.error (lastError.getD (.malformed "download link missing host")), none)
  | host :: hosts, n, _, file =>
    match fetchDownloadVerifiedStreaming parseRetryAfter sha256 config none (hostAnswer servers config link n host) file
      with
    | (.ok written, file) => (.ok (link.signed host, written), some file)
    | (.error e, file) => tryHosts hosts (n + 1) (some e) file

def downloadToPath : TransferMode → Except HttpDownloadError (SignedDownload × Nat) × Option Bytes
  | .development =>
    let signed := match link.hosts with
      | host :: _ => link.signed host
      | [] => { host := "c1.pcloud.com", port := none, path := link.path, dwltag := link.downloadTag, range := none }
    let body := utf8 ("downloaded:" ++ link.path)
    (.ok (signed, body.length), some body)
  | .network => tryHosts parseRetryAfter sha256 servers config link link.hosts 0 none []

/-! ## What is left of the hosts that fail -/

/-- What a fetch from this host alone ends with, and the bytes that it writes. -/
def fetchedFrom (n : Nat) (host : String) : Except HttpDownloadError Nat × Bytes :=
  fetchDownloadVerifiedStreaming parseRetryAfter sha256 config none (hostAnswer servers config link n host) []

/-- Host number `k` is the first one from which a fetch ends well. -/
def Succeeds (k : Nat) (host : String) : Prop :=
  link.hosts[k]? = some host ∧ (fetchedFrom parseRetryAfter sha256 servers config link k host).1.isOk ∧
    ∀ j host', j < k → link.hosts[j]? = some host' →
      ¬ (fetchedFrom parseRetryAfter sha256 servers config link j host').1.isOk

/-- A download that ends well leaves the body that the host which succeeded serves, and returns its length. -/
def OneBody : Prop :=
  ∀ signed n file, downloadToPath parseRetryAfter sha256 servers config link .network = (.ok (signed, n), file) →
    ∃ k host body headers, Succeeds parseRetryAfter sha256 servers config link k host ∧ signed = link.signed host ∧
      Message parseRetryAfter config (hostAnswer servers config link k host).carried headers body ∧
      headers.status / 100 = 2 ∧ file = some body ∧ n = body.length

end

section

variable {parseRetryAfter : String → Option Nat} {sha256 : Bytes → Bytes} {servers : Servers}
variable {config : HttpDownloadConfig} {link : DownloadLink}

theorem fetch_hostAnswer (n : Nat) (host : String) (file : Bytes) :
    fetchDownloadVerifiedStreaming parseRetryAfter sha256 config none (hostAnswer servers config link n host) file =
      ((fetchedFrom parseRetryAfter sha256 servers config link n host).1,
        file ++ (fetchedFrom parseRetryAfter sha256 servers config link n host).2) := by
  unfold fetchedFrom fetchDownloadVerifiedStreaming
  rcases hostAnswer servers config link n host with e | ⟨packets, broken, checks⟩
  · simp [HttpAnswer.run]
  · dsimp only [HttpAnswer.run]
    rcases ((requestAndStream parseRetryAfter config).exec _).1 with e | written
    · rfl
    · rfl

theorem forall_before_succ {P : Nat → String → Prop} (host : String) (hosts : List String) (n k : Nat) :
    (∀ j host', j < k + 1 → (host :: hosts)[j]? = some host' → P (n + j) host') ↔
      P n host ∧ ∀ j host', j < k → hosts[j]? = some host' → P (n + 1 + j) host' := by
  constructor
  · intro h
    refine ⟨h 0 host (Nat.succ_pos k) rfl, fun j host' hj hhost => ?_⟩
    rw [Nat.add_assoc, Nat.add_comm 1]
    exact h (j + 1) host' (by omega) hhost
  · rintro ⟨hfirst, hrest⟩ j host' hj hhost
    rcases j with _ | j
    · obtain rfl : host = host' := by simpa using hhost
      exact hfirst
    · rw [show n + (j + 1) = n + 1 + j by omega]
      exact hrest j host' (by omega) hhost

theorem tryHosts_cases (parseRetryAfter : String → Option Nat) (sha256 : Bytes → Bytes) (servers : Servers)
    (config : HttpDownloadConfig) (link : DownloadLink) (hosts : List String) (n : Nat)
    (lastError : Option HttpDownloadError) (file : Bytes) :
    let fetched := fetchedFrom parseRetryAfter sha256 servers config link
    let outcome := tryHosts parseRetryAfter sha256 servers config link hosts n lastError file
    ((∀ j host', hosts[j]? = some host' → ¬ (fetched (n + j) host').1.isOk) ∧ ∃ e, outcome = (.error e, none)) ∨
      ∃ k host written before, hosts[k]? = some host ∧ (fetched (n + k) host).1 = .ok written ∧
        (∀ j host', j < k → hosts[j]? = some host' → ¬ (fetched (n + j) host').1.isOk) ∧
        outcome = (.ok (link.signed host, written), some (file ++ before ++ (fetched (n + k) host).2)) ∧
        (before = [] ↔ ∀ j host', j < k → hosts[j]? = some host' → (fetched (n + j) host').2 = []) := by
  induction hosts generalizing n lastError file with
  | nil => exact .inl ⟨fun j host' hhost => by simp at hhost, _, rfl⟩
  | cons host hosts ih =>
    dsimp only at ih ⊢
    unfold tryHosts
    rw [fetch_hostAnswer]
    rcases hfetched : fetchedFrom parseRetryAfter sha256 servers config link n host with ⟨e | written, bytes⟩
    · have hfailed : ¬ (fetchedFrom parseRetryAfter sha256 servers config link n host).1.isOk := by
        rw [hfetched]
        exact Bool.false_ne_true
      rcases ih (n + 1) (some e) (file ++ bytes) with ⟨hfails, houtcome⟩ | ⟨k, host', written, before, hhost, hok,
        hfails, houtcome, hbefore⟩
      · refine .inl ⟨fun j host' hhost => ?_, houtcome⟩
        exact (forall_before_succ (P := fun n host => ¬ (fetchedFrom _ _ _ _ _ n host).1.isOk) host hosts n j).mpr
          ⟨hfailed, fun j host' _ hhost => hfails j host' hhost⟩ j host' (Nat.lt_succ_self j) hhost
      · have hshift : n + (k + 1) = n + 1 + k := by omega
        refine .inr ⟨k + 1, host', written, bytes ++ before, hhost, ?_, ?_, ?_, ?_⟩
        · rw [hshift]
          exact hok
        · exact (forall_before_succ (P := fun n host => ¬ (fetchedFrom _ _ _ _ _ n host).1.isOk) host hosts n k).mpr
            ⟨hfailed, hfails⟩
        · rw [hshift, ← List.append_assoc file]
          exact houtcome
        · rw [forall_before_succ (P := fun n host => (fetchedFrom _ _ _ _ _ n host).2 = []) host hosts n k, hfetched,
            List.append_eq_nil_iff, hbefore]
    · refine .inr ⟨0, host, written, [], rfl, ?_, ?_, ?_, ?_⟩
      · rw [Nat.add_zero, hfetched]
      · intro j _ hj
        omega
      · simp only [Nat.add_zero, hfetched, List.append_nil]
      · refine iff_of_true rfl fun j _ hj => ?_
        omega

theorem fetchedFrom_ok {n written : Nat} {host : String}
    (h : (fetchedFrom parseRetryAfter sha256 servers config link n host).1 = .ok written) :
    let bytes := (fetchedFrom parseRetryAfter sha256 servers config link n host).2
    written = bytes.length ∧
      ∃ headers, Message parseRetryAfter config (hostAnswer servers config link n host).carried headers bytes ∧
        headers.status / 100 = 2 := by
  obtain ⟨bytes, hbytes, hresult⟩ :=
    fetch_spec parseRetryAfter config sha256 none (hostAnswer servers config link n host) []
  unfold fetchedFrom at h ⊢
  rw [h] at hresult
  rw [hbytes, List.nil_append]
  exact ⟨hresult.1, hresult.2.2⟩

theorem Succeeds.unique {k k' : Nat} {host host' : String}
    (h : Succeeds parseRetryAfter sha256 servers config link k host)
    (h' : Succeeds parseRetryAfter sha256 servers config link k' host') : k = k' := by
  rcases Nat.lt_trichotomy k k' with hlt | heq | hlt
  · exact absurd h.2.1 (h'.2.2 k host hlt h.1)
  · exact heq
  · exact absurd h'.2.1 (h.2.2 k' host' hlt h'.1)

end

variable (parseRetryAfter : String → Option Nat) (sha256 : Bytes → Bytes) (servers : Servers)
variable (config : HttpDownloadConfig) (link : DownloadLink)

/-- The file holds one body just if no host that was tried before has written a byte of its own. -/
theorem oneBody_iff :
    OneBody parseRetryAfter sha256 servers config link ↔
      ∀ k host, Succeeds parseRetryAfter sha256 servers config link k host →
        ∀ j host', j < k → link.hosts[j]? = some host' →
          (fetchedFrom parseRetryAfter sha256 servers config link j host').2 = [] := by
  rcases tryHosts_cases parseRetryAfter sha256 servers config link link.hosts 0 none [] with ⟨hfails, e, houtcome⟩ |
    ⟨k, host, written, before, hhost, hok, hfails, houtcome, hbefore⟩
  · simp only [Nat.zero_add] at hfails
    refine iff_of_true ?_ fun k host hsucceeds => absurd hsucceeds.2.1 (hfails k host hsucceeds.1)
    intro signed n file hended
    cases houtcome.symm.trans hended
  · simp only [Nat.zero_add, List.nil_append] at hok hfails houtcome hbefore
    obtain ⟨rfl, headers, hmessage, hstatus⟩ := fetchedFrom_ok hok
    have hsucceeds : Succeeds parseRetryAfter sha256 servers config link k host :=
      ⟨hhost, by rw [hok]; rfl, hfails⟩
    have hcondition : (∀ k host, Succeeds parseRetryAfter sha256 servers config link k host →
        ∀ j host', j < k → link.hosts[j]? = some host' →
          (fetchedFrom parseRetryAfter sha256 servers config link j host').2 = []) ↔ before = [] := by
      rw [hbefore]
      constructor
      · exact fun h => h k host hsucceeds
      · intro h k' host' hsucceeds'
        obtain rfl := hsucceeds.unique hsucceeds'
        exact h
    rw [hcondition]
    constructor
    · intro h
      obtain ⟨-, -, body, -, -, -, -, -, hfile, hlength⟩ := h _ _ _ houtcome
      have htotal := congrArg List.length (Option.some.inj hfile)
      rw [List.length_append] at htotal
      exact List.length_eq_zero_iff.mp (by omega)
    · rintro rfl signed n file hended
      cases houtcome.symm.trans hended
      exact ⟨k, host, _, headers, hsucceeds, rfl, hmessage, hstatus, rfl, rfl⟩

def mirrored : DownloadLink where
  path := "/ab"
  hosts := ["c1.pcloud.com", "c2.pcloud.com:443"]
  downloadTag := none

def abHead : Bytes := utf8 "HTTP/1.1 200 OK\r\nContent-Length: 2\r\n\r\n"

/-- The first host closes the connection after a byte. -/
def closingServers : Servers := fun n _ _ _ =>
  if n = 0 then .sent [abHead, utf8 "a"] false none else .sent [abHead, utf8 "ab"] false none

theorem not_oneBody : ¬ OneBody (fun _ => none) (fun _ => []) closingServers {} mirrored := by
  intro h
  have houtcome : downloadToPath (fun _ => none) (fun _ => []) closingServers {} mirrored .network =
      (.ok (mirrored.signed "c2.pcloud.com:443", 2), some (utf8 "aab")) := by
    decide +kernel
  obtain ⟨-, -, body, -, -, -, -, -, hfile, hlength⟩ := h _ _ _ houtcome
  have htotal := congrArg List.length (Option.some.inj hfile)
  rw [← hlength] at htotal
  exact absurd htotal (by decide)

end Pcloud
