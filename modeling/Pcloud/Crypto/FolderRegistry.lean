import Pcloud.Crypto.Outcomes

/-!
# The registry of encrypted folders

`mkdir` and `mkdir_with_context` take a folder id from the caller or from a counter of the shell. The caller's id is
looked up before the folder is registered under it; the counter's is not.
-/

namespace Pcloud

/-- The arguments of a call that makes a folder. -/
structure FolderRequest where
  symKey : Option SymKeyVer1
  parentFolderId : Option UInt64
  name : String
  localFolderId : Option UInt64

def Call.folderRequest {PrivKey : Type} : Call PrivKey → Option FolderRequest
  | .mkdir symKey parentFolderId name localFolderId => some ⟨symKey, parentFolderId, name, localFolderId⟩
  | .mkdirWithContext symKey parentFolderId name localFolderId => some ⟨symKey, parentFolderId, name, localFolderId⟩
  | _ => none

/-- The folder that an answer tells of. -/
def Answer.folder : Answer → Option CryptoFolderEntry
  | .entry folder => some folder
  | .created folder => some folder.entry
  | _ => none

namespace CryptoShell

variable {PrivKey : Type} (suite : CryptoSuite PrivKey) (s : CryptoShell PrivKey)

def compatFolderName (request : FolderRequest) : Option String :=
  s.pclsyncCompatState.bind fun state =>
    if request.name.isEmpty || request.name.contains '/' then none
    else
      request.parentFolderId.bind fun parentId =>
        (state.folderKeys parentId).bind fun sym =>
          (encodeFilename suite.toPrimitives ⟨sym.aesKey, sym.hmacKey⟩ request.name).toOption.bind fun encodedName =>
            request.symKey.map fun _ => encodedName

/-- The encrypted name of a new folder, where the call gets as far as to register it. -/
def folderName (request : FolderRequest) : Option String :=
  if s.effectiveBackend = .pclsyncCompat then s.compatFolderName suite request
  else s.keys.activeKeyMaterial.bind fun key => (encryptFilename suite key.1 request.name).toOption

/-- A call that succeeds adds the folder of its answer under a new id; one that fails changes nothing of the
registry. -/
structure LosesNothing (turn : Turn PrivKey) : Prop where
  adds : ∀ answer, (s.exec suite turn.host turn.call).1 = .ok answer → ∃ entry, answer.folder = some entry ∧
    s.folders entry.folderId = none ∧
    (s.step suite turn).folders = Function.update s.folders entry.folderId (some entry)
  keeps : ∀ error, (s.exec suite turn.host turn.call).1 = .error error →
    (s.step suite turn).folders = s.folders ∧ (s.step suite turn).nextLocalFolderId = s.nextLocalFolderId

/-- No folder gets an id of the counter that is taken. -/
def CounterFree (turn : Turn PrivKey) : Prop :=
  ∀ request, turn.call.folderRequest = some request → request.localFolderId = none →
    (s.folderName suite request).isSome = true → s.folders s.nextLocalFolderId = none

/-! ## One call -/

section Exec

variable {suite s} {request : FolderRequest}

theorem eq_ok_of_toOption {ε α : Type} {r : Except ε α} {a : α} (h : r.toOption = some a) : r = .ok a := by
  cases r with
  | error e => cases h
  | ok a' =>
    cases h
    rfl

theorem mkdirPclsyncCompat_of_none (h : s.compatFolderName suite request = none) : ∃ error,
    s.mkdirPclsyncCompat suite request.symKey request.parentFolderId request.name request.localFolderId =
      (.error error, s) := by
  obtain ⟨symKey, parentFolderId, name, localFolderId⟩ := request
  unfold mkdirPclsyncCompat
  split
  · exact ⟨_, rfl⟩
  split
  · exact ⟨_, rfl⟩
  split
  · exact ⟨_, rfl⟩
  split
  · exact ⟨_, rfl⟩
  split
  · exact ⟨_, rfl⟩
  split
  · exact ⟨_, rfl⟩
  · simp_all [compatFolderName, Except.toOption]

theorem mkdirPclsyncCompat_of_some {encryptedName : String}
    (h : s.compatFolderName suite request = some encryptedName) : ∃ symKey,
    s.mkdirPclsyncCompat suite request.symKey request.parentFolderId request.name request.localFolderId =
      ((s.registerFolder request.parentFolderId encryptedName request.localFolderId).1.map fun entry =>
          ⟨entry, some symKey⟩,
        (s.registerFolder request.parentFolderId encryptedName request.localFolderId).2) := by
  obtain ⟨symKey, parentFolderId, name, localFolderId⟩ := request
  obtain ⟨state, hstate, hchecked⟩ := Option.bind_eq_some_iff.mp h
  by_cases hinvalid : (name.isEmpty || name.contains '/') = true
  · rw [if_pos hinvalid] at hchecked
    cases hchecked
  rw [if_neg hinvalid] at hchecked
  obtain ⟨parentId, hparent, hbelow⟩ := Option.bind_eq_some_iff.mp hchecked
  obtain ⟨sym, hsym, hnamed⟩ := Option.bind_eq_some_iff.mp hbelow
  obtain ⟨encodedName, hencode, hdrawn⟩ := Option.bind_eq_some_iff.mp hnamed
  obtain ⟨key, hkey, rfl⟩ := Option.map_eq_some_iff.mp hdrawn
  dsimp only at hparent hencode hkey
  refine ⟨key, ?_⟩
  unfold mkdirPclsyncCompat
  simp only [hstate, if_neg hinvalid, hparent, hsym, eq_ok_of_toOption hencode, hkey]
  cases hres : s.registerFolder (some parentId) encodedName localFolderId with
  | mk answer s' => cases answer <;> rfl

theorem mkdir_of_none (hown : s.effectiveBackend ≠ .pclsyncCompat) (h : s.folderName suite request = none) : ∃ error,
    s.mkdir suite request.symKey request.parentFolderId request.name request.localFolderId = (.error error, s) := by
  unfold folderName at h
  rw [if_neg hown] at h
  unfold mkdir
  rw [if_neg hown]
  split
  · exact ⟨_, rfl⟩
  split
  · exact ⟨_, rfl⟩
  · simp_all [Except.toOption]

theorem mkdir_of_some {encryptedName : String} (hown : s.effectiveBackend ≠ .pclsyncCompat)
    (h : s.folderName suite request = some encryptedName) :
    s.mkdir suite request.symKey request.parentFolderId request.name request.localFolderId =
      s.registerFolder request.parentFolderId encryptedName request.localFolderId := by
  unfold folderName at h
  rw [if_neg hown] at h
  obtain ⟨key, hkey, hname⟩ := Option.bind_eq_some_iff.mp h
  unfold mkdir
  simp only [if_neg hown, hkey, eq_ok_of_toOption hname]

theorem exec_of_none (host : Host) {call : Call PrivKey} (hcall : call.folderRequest = some request)
    (h : s.folderName suite request = none) : ∃ error, s.exec suite host call = (.error error, s) := by
  by_cases hcompat : s.effectiveBackend = .pclsyncCompat
  · rw [folderName, if_pos hcompat] at h
    obtain ⟨error, hres⟩ := mkdirPclsyncCompat_of_none h
    cases call with
    | mkdir symKey parentFolderId name localFolderId =>
      cases hcall
      exact ⟨error, by simp only [exec, mkdir, if_pos hcompat, hres, reply, Except.map]⟩
    | mkdirWithContext symKey parentFolderId name localFolderId =>
      cases hcall
      exact ⟨error, by simp only [exec, mkdirWithContext, if_pos hcompat, hres, reply, Except.map]⟩
    | _ => cases hcall
  · obtain ⟨error, hres⟩ := mkdir_of_none hcompat h
    cases call with
    | mkdir symKey parentFolderId name localFolderId =>
      cases hcall
      exact ⟨error, by simp only [exec, hres, reply, Except.map]⟩
    | mkdirWithContext symKey parentFolderId name localFolderId =>
      cases hcall
      exact ⟨error, by simp only [exec, mkdirWithContext, if_neg hcompat, hres, reply, Except.map]⟩
    | _ => cases hcall

theorem exec_of_some (host : Host) {call : Call PrivKey} (hcall : call.folderRequest = some request)
    {encryptedName : String} (h : s.folderName suite request = some encryptedName) :
    ∃ wrap, (∀ entry, (wrap entry).folder = some entry) ∧
      s.exec suite host call =
        reply wrap (s.registerFolder request.parentFolderId encryptedName request.localFolderId) := by
  obtain ⟨answer, s', houtcome⟩ : ∃ answer s', s.registerFolder request.parentFolderId encryptedName
      request.localFolderId = (answer, s') := ⟨_, _, rfl⟩
  by_cases hcompat : s.effectiveBackend = .pclsyncCompat
  · rw [folderName, if_pos hcompat] at h
    obtain ⟨drawn, hres⟩ := mkdirPclsyncCompat_of_some h
    rw [houtcome] at hres ⊢
    cases call with
    | mkdir symKey parentFolderId name localFolderId =>
      cases hcall
      refine ⟨.entry, fun _ => rfl, ?_⟩
      simp only [exec, mkdir, if_pos hcompat, hres]
      cases answer <;> rfl
    | mkdirWithContext symKey parentFolderId name localFolderId =>
      cases hcall
      refine ⟨fun entry => .created ⟨entry, some drawn⟩, fun _ => rfl, ?_⟩
      simp only [exec, mkdirWithContext, if_pos hcompat, hres]
      cases answer <;> rfl
    | _ => cases hcall
  · have hmkdir := mkdir_of_some hcompat h
    rw [houtcome] at hmkdir ⊢
    cases call with
    | mkdir symKey parentFolderId name localFolderId =>
      cases hcall
      exact ⟨.entry, fun _ => rfl, congrArg (reply Answer.entry) hmkdir⟩
    | mkdirWithContext symKey parentFolderId name localFolderId =>
      cases hcall
      refine ⟨fun entry => .created ⟨entry, none⟩, fun _ => rfl, ?_⟩
      simp only [exec, mkdirWithContext, if_neg hcompat, hmkdir]
      cases answer <;> rfl
    | _ => cases hcall

end Exec

/-! ## Losses -/

variable {suite s} {turn : Turn PrivKey}

theorem losesNothing_of_error {error : CryptoError} (h : s.exec suite turn.host turn.call = (.error error, s)) :
    s.LosesNothing suite turn := by
  constructor
  · intro answer hok
    rw [h] at hok
    cases hok
  · intro _ _
    rw [step, h]
    exact ⟨rfl, rfl⟩

theorem losesNothing_iff_of_ok {wrap : CryptoFolderEntry → Answer} (hwrap : ∀ entry, (wrap entry).folder = some entry)
    {entry : CryptoFolderEntry} {s' : CryptoShell PrivKey}
    (h : s.exec suite turn.host turn.call = reply wrap (.ok entry, s'))
    (hfolders : s'.folders = Function.update s.folders entry.folderId (some entry)) :
    s.LosesNothing suite turn ↔ s.folders entry.folderId = none := by
  have hexec : s.exec suite turn.host turn.call = (.ok (wrap entry), s') := h
  constructor
  · intro hkept
    obtain ⟨added, hadded, hfree, -⟩ := hkept.adds (wrap entry) (congrArg Prod.fst hexec)
    rw [hwrap] at hadded
    cases hadded
    exact hfree
  · intro hfree
    constructor
    · intro answer hok
      rw [hexec] at hok
      cases hok
      refine ⟨entry, hwrap entry, hfree, ?_⟩
      rw [step, hexec]
      exact hfolders
    · intro error herror
      rw [hexec] at herror
      cases herror

theorem losesNothing_iff (hcall : turn.call.folderRequest.isSome = true) :
    s.LosesNothing suite turn ↔ s.CounterFree suite turn := by
  obtain ⟨request, hrequest⟩ := Option.isSome_iff_exists.mp hcall
  have hcounter : s.CounterFree suite turn ↔ (request.localFolderId = none →
      (s.folderName suite request).isSome = true → s.folders s.nextLocalFolderId = none) := by
    refine ⟨fun h => h request hrequest, fun h other hother => ?_⟩
    rw [hrequest] at hother
    cases hother
    exact h
  rw [hcounter]
  cases hname : s.folderName suite request with
  | none =>
    obtain ⟨error, herror⟩ := exec_of_none turn.host hrequest hname
    exact iff_of_true (losesNothing_of_error herror) fun _ hsome => by cases hsome
  | some encryptedName =>
    obtain ⟨wrap, hwrap, hexec⟩ := exec_of_some turn.host hrequest hname
    cases hlocal : request.localFolderId with
    | none =>
      rw [hlocal] at hexec
      rw [losesNothing_iff_of_ok hwrap hexec rfl]
      exact ⟨fun h _ _ => h, fun h => h rfl rfl⟩
    | some id =>
      refine iff_of_true ?_ fun hnone => by cases hnone
      rw [hlocal, registerFolder] at hexec
      by_cases htaken : (s.folders id).isSome = true
      · rw [if_pos htaken] at hexec
        exact losesNothing_of_error hexec
      · rw [if_neg htaken] at hexec
        exact (losesNothing_iff_of_ok hwrap hexec rfl).mpr (Option.not_isSome_iff_eq_none.mp htaken)

theorem LosesNothing.folders_step (h : s.LosesNothing suite turn) {id : UInt64} {entry : CryptoFolderEntry}
    (hentry : s.folders id = some entry) : (s.step suite turn).folders id = some entry := by
  cases hanswer : (s.exec suite turn.host turn.call).1 with
  | error error => rw [(h.keeps error hanswer).1, hentry]
  | ok answer =>
    obtain ⟨added, -, hfree, hfolders⟩ := h.adds answer hanswer
    have hne : id ≠ added.folderId := by
      rintro rfl
      rw [hfree] at hentry
      cases hentry
    rw [hfolders, Function.update_of_ne hne, hentry]

theorem folders_run {turns : List (Turn PrivKey)} (h : Runs.AllSteps (step suite) (LosesNothing suite) s turns)
    {id : UInt64} {entry : CryptoFolderEntry} (hentry : s.folders id = some entry) :
    (Runs.run (step suite) s turns).folders id = some entry :=
  h.invariant hentry fun _ _ hkept hstep => hstep.folders_step hkept

/-! ## An id that is given out twice -/

theorem step_of_some {request : FolderRequest} (hcall : turn.call.folderRequest = some request) {encryptedName : String}
    (hname : s.folderName suite request = some encryptedName) : s.step suite turn =
      (s.registerFolder request.parentFolderId encryptedName request.localFolderId).2 := by
  obtain ⟨wrap, -, hexec⟩ := exec_of_some turn.host hcall hname
  rw [step, hexec]
  rfl

theorem folderName_step {request : FolderRequest} (hcall : turn.call.folderRequest = some request)
    {encryptedName : String} (hname : s.folderName suite request = some encryptedName) (request' : FolderRequest) :
    (s.step suite turn).folderName suite request' = s.folderName suite request' := by
  obtain ⟨folders, next, hsnd⟩ := s.registerFolder_snd request.parentFolderId encryptedName request.localFolderId
  rw [step_of_some hcall hname, hsnd]
  rfl

/-- The caller takes the next id of the counter, and the counter gives it out again. -/
theorem lost_of_counter_taken {turn' : Turn PrivKey} {request request' : FolderRequest}
    (hcall : turn.call.folderRequest = some request) (hcall' : turn'.call.folderRequest = some request')
    (hlocal : request.localFolderId = some s.nextLocalFolderId) (hlocal' : request'.localFolderId = none)
    (hname : (s.folderName suite request).isSome = true) (hname' : (s.folderName suite request').isSome = true) :
    ¬ Runs.AllSteps (step suite) (LosesNothing suite) s [turn, turn'] := by
  intro h
  obtain ⟨encryptedName, hname⟩ := Option.isSome_iff_exists.mp hname
  have hfree := (losesNothing_iff (Option.isSome_of_eq_some hcall')).mp h.2.1 request' hcall' hlocal'
    (folderName_step hcall hname request' ▸ hname')
  rw [step_of_some hcall hname, hlocal, registerFolder] at hfree
  by_cases htaken : (s.folders s.nextLocalFolderId).isSome = true
  · rw [if_pos htaken] at hfree
    dsimp only at hfree
    rw [hfree] at htaken
    cases htaken
  · rw [if_neg htaken] at hfree
    simp at hfree

variable (suite s)

/-- A run of folders loses none just where the counter gives out no id that is taken. -/
theorem losesNothing_run_iff (turns : List (Turn PrivKey))
    (hturns : ∀ turn ∈ turns, turn.call.folderRequest.isSome = true) :
    Runs.AllSteps (step suite) (LosesNothing suite) s turns ↔ Runs.AllSteps (step suite) (CounterFree suite) s turns :=
  Runs.allSteps_congr_of_calls (I := fun _ => True) hturns trivial (fun _ _ hcall _ => losesNothing_iff hcall)
    fun _ _ _ h => h

/-- An Enhanced shell of the password `a`, unlocked. -/
def startedShell : CryptoShell Bytes := plainProfile.step echoSuite ⟨⟨1, 0, nullKms⟩, .start "a" none⟩

/-- A folder of the caller's id 1, and one of the counter's. -/
def twoFolders : List (Turn Bytes) :=
  [⟨⟨2, 0, nullKms⟩, .mkdir none none "x" (some 1)⟩, ⟨⟨3, 0, nullKms⟩, .mkdir none none "y" none⟩]

theorem twoFolders_lost :
    startedShell.isStarted = true ∧
      ¬ Runs.AllSteps (step echoSuite) (LosesNothing echoSuite) startedShell twoFolders := by
  have hbackend : startedShell.effectiveBackend ≠ .pclsyncCompat := by decide +kernel
  obtain ⟨key, hkey⟩ := Option.isSome_iff_exists.mp
    (by decide +kernel : startedShell.keys.activeKeyMaterial.isSome = true)
  have hname (name : String) (localFolderId : Option UInt64) (hvalid : ¬ (name = "" ∨ '/' ∈ name.toList)) :
      (startedShell.folderName echoSuite ⟨none, none, name, localFolderId⟩).isSome = true := by
    simp [folderName, hbackend, hkey, encryptFilename, hvalid, Except.toOption]
  have hx : (Call.mkdir none none "x" (some 1) : Call Bytes).folderRequest = some ⟨none, none, "x", some 1⟩ := rfl
  have hy : (Call.mkdir none none "y" none : Call Bytes).folderRequest = some ⟨none, none, "y", none⟩ := rfl
  refine ⟨by decide +kernel, ?_⟩
  exact lost_of_counter_taken hx hy (by decide +kernel) rfl (hname "x" _ (by decide)) (hname "y" _ (by decide))

theorem oneFolder_run_iff :
    Runs.AllSteps (step echoSuite) (LosesNothing echoSuite) startedShell (twoFolders.take 1) ↔
      Runs.AllSteps (step echoSuite) (CounterFree echoSuite) startedShell (twoFolders.take 1) :=
  losesNothing_run_iff echoSuite startedShell (twoFolders.take 1) (by decide)

end CryptoShell

end Pcloud
