import AgentHub.Worker.Client
import AgentHub.Hub.Fencing

namespace AgentHub

open Relational

/-!
# The identity a worker reports

The launcher names the worker and says what it is in the environment, the agent declares more when
it checks in, the client puts both into the metadata of the READY message, and the hub reads them
back.  The hub strips texts, takes `unknown` for nothing said, and refuses a model without a source;
nothing the client sends is changed or refused by that.

* `profileFromEnv`, `WorkerSettings.fromEnv` — what the launcher says;
* `AgentProfile.Clean` — a profile whose texts are as the hub would leave them; `declare_clean`;
* `commits_profile_ready` — the hub reads the profile the client sends;
* `identity_reaches_hub` — and stores it, and tells Alice of it.
-/

/-! ### The environment -/

/-- The environment of a process. -/
abbrev Environment := String → Option String

/-- `env.get(name, "").strip()`. -/
def Environment.text (env : Environment) (name : String) : String := strip ((env name).getD "")

/-- `_declared`: the first value among the names that is not blank. -/
def Environment.declared (env : Environment) (names : List String) : String :=
  ((names.map env.text).find? fun value => value ≠ "").getD unknown

/-- `dict.fromkeys` over the items that are not blank. -/
def cleanItems (items : List String) : List String :=
  ((items.map strip).filter fun item => item ≠ "").eraseDups

/-- `text.split(",")`. -/
def splitCommas (text : String) : List String := (text.toList.splitOn ',').map String.ofList

/-- `profile_from_env`. -/
def profileFromEnv (env : Environment) : AgentProfile :=
  let model := env.declared ["HUB_MODEL"]
  { harness := env.declared ["HUB_HARNESS", "AGENT_RUNTIME"]
    harnessVersion := env.declared ["HUB_HARNESS_VERSION"]
    provider := env.declared ["HUB_PROVIDER"]
    model
    modelSource := if model = unknown then .unknown else .env
    capabilities := cleanItems (splitCommas ((env "HUB_CAPABILITIES").getD "")) }

/-- `[0-9a-f]{64}`. -/
def isWorkspaceId (s : String) : Bool :=
  s.toList.length == 64 && s.toList.all fun c => ('0' ≤ c && c ≤ '9') || ('a' ≤ c && c ≤ 'f')

/-- An id that `read_identity` lets through. -/
def WorkspaceId := {s : String // isWorkspaceId s = true}

/-- The URL of the hub is one of the web; the slashes at its end are dropped first. -/
def isHttpUrl (url : String) : Bool :=
  let trimmed := url.toList.rdropWhile fun c => c == '/'
  "http://".toList.isPrefixOf trimmed || "https://".toList.isPrefixOf trimmed

/-- `WorkerSettings.from_env`, with the identity of the workspace it was given. -/
def WorkerSettings.fromEnv (env : Environment) (workspace : Option WorkspaceId) :
    Except String WorkerSettings :=
  if env.text "HUB_URL" = "" then .error "HUB_URL must be set"
  else if isHttpUrl (env.text "HUB_URL") = false then .error "HUB_URL must be an http(s) URL"
  else if env.text "HUB_TOKEN" = "" then .error "HUB_TOKEN must be set"
  else if env.text "AGENT_NAME" = "" then .error "AGENT_NAME must be set"
  else .ok {
    agentName := env.text "AGENT_NAME"
    profile := { profileFromEnv env with workspaceId := workspace.map Subtype.val } }

/-! ### Clean texts -/

/-- A list that begins with no white space has no prefix that does. -/
theorem dropWhile_prefix {α : Type} {p : α → Bool} {l m : List α} (hl : l.dropWhile p = l)
    (hm : m <+: l) : m.dropWhile p = m := by
  obtain ⟨rest, rfl⟩ := hm
  cases m with
  | nil => rfl
  | cons c m =>
    by_cases hc : p c = true
    · rw [List.cons_append, List.dropWhile_cons_of_pos hc] at hl
      have hlength := congrArg List.length hl
      have hle := (List.dropWhile_suffix p (l := m ++ rest)).length_le
      rw [List.length_cons] at hlength
      omega
    · exact List.dropWhile_cons_of_neg hc

/-- Stripping twice strips no more. -/
theorem strip_strip (s : String) : strip (strip s) = strip s := by
  have hleft : (s.toList.dropWhile isSpace).dropWhile isSpace = s.toList.dropWhile isSpace :=
    List.dropWhile_idempotent ..
  have hboth := dropWhile_prefix hleft (List.rdropWhile_prefix isSpace _)
  rw [strip, strip, String.toList_ofList, hboth, List.rdropWhile_idempotent]

/-- A text stripped that is not empty is a token. -/
theorem isToken_strip {s : String} (h : strip s ≠ "") : IsToken (strip s) := ⟨strip_strip s, h⟩

/-- The unknown is a token. -/
theorem isToken_unknown : IsToken unknown := ⟨by decide, by decide⟩

/-- A list without repetitions stays as it is. -/
theorem eraseDups_of_nodup {items : List String} (h : items.Nodup) : items.eraseDups = items := by
  induction items with
  | nil => rfl
  | cons a items ih =>
    obtain ⟨hnot, hnodup⟩ := List.nodup_cons.mp h
    have hfilter : (items.filter fun b => !b == a) = items := by
      rw [List.filter_eq_self]
      intro b hb
      have hne : b ≠ a := fun h => hnot (h ▸ hb)
      simp [hne]
    rw [List.eraseDups_cons, hfilter, ih hnodup]

/-- No item is left twice. -/
theorem nodup_eraseDups (items : List String) : items.eraseDups.Nodup := by
  generalize hn : items.length = n
  induction n using Nat.strong_induction_on generalizing items with
  | h n ih =>
    cases items with
    | nil => exact List.nodup_nil
    | cons a items =>
      rw [List.eraseDups_cons, List.nodup_cons]
      have hle := List.length_filter_le (fun b => !b == a) items
      rw [List.length_cons] at hn
      refine ⟨fun hmem => ?_, ih _ (by omega) _ rfl⟩
      have hfilter := List.mem_filter.mp (List.mem_eraseDups.mp hmem)
      simp at hfilter

/-- The items as the hub would leave them: stripped, not blank, none twice. -/
def CleanItems (items : List String) : Prop := (∀ item ∈ items, IsToken item) ∧ items.Nodup

/-- Cleaned items are clean. -/
theorem cleanItems_clean (items : List String) : CleanItems (cleanItems items) := by
  refine ⟨fun item hitem => ?_, nodup_eraseDups _⟩
  obtain ⟨hmem, hne⟩ := List.mem_filter.mp (List.mem_eraseDups.mp hitem)
  obtain ⟨raw, -, rfl⟩ := List.mem_map.mp hmem
  exact isToken_strip (by simpa using hne)

/-- Clean items are cleaned to themselves. -/
theorem cleanItems_of_clean {items : List String} (h : CleanItems items) :
    cleanItems items = items := by
  have hmap : items.map strip = items := by
    conv_rhs => rw [← List.map_id items]
    exact List.map_congr_left fun item hitem => (h.1 item hitem).1
  have hfilter : (items.filter fun item => item ≠ "") = items := by
    rw [List.filter_eq_self]
    intro item hitem
    simpa using (h.1 item hitem).2
  rw [cleanItems, hmap, hfilter, eraseDups_of_nodup h.2]

/-! ### Clean profiles -/

/-- A profile whose texts are as the hub would leave them, and whose model has its source. -/
structure AgentProfile.Clean (p : AgentProfile) : Prop where
  harness : IsToken p.harness
  harnessVersion : IsToken p.harnessVersion
  provider : IsToken p.provider
  model : IsToken p.model
  declaredModel : IsToken p.declaredModel
  source : p.modelSource = .unknown ↔ p.model = unknown
  capabilities : CleanItems p.capabilities
  workspace : ∀ id ∈ p.workspaceId, IsToken id ∧ id ≠ unknown

/-- A name declared in the environment is a token. -/
theorem Environment.isToken_declared (env : Environment) (names : List String) :
    IsToken (env.declared names) := by
  rw [declared]
  cases hfound : (names.map env.text).find? fun value => value ≠ "" with
  | none => exact isToken_unknown
  | some value =>
    obtain ⟨name, -, rfl⟩ := List.mem_map.mp (List.mem_of_find?_eq_some hfound)
    have hne : env.text name ≠ "" := of_decide_eq_true
      (List.find?_some (p := fun value => decide (value ≠ "")) hfound)
    exact isToken_strip hne

/-- A workspace id is a token that is not the unknown. -/
theorem isToken_of_isWorkspaceId {s : String} (h : isWorkspaceId s = true) :
    IsToken s ∧ s ≠ unknown := by
  rw [isWorkspaceId, Bool.and_eq_true, beq_iff_eq, List.all_eq_true] at h
  obtain ⟨hlength, hdigits⟩ := h
  have hspace : ∀ c ∈ s.toList, isSpace c = false := by
    intro c hc
    have hdigit := hdigits c hc
    simp only [Bool.or_eq_true, Bool.and_eq_true, decide_eq_true_eq, Char.le_def,
      UInt32.le_iff_toNat_le] at hdigit
    have hnat : c.toNat = c.val.toNat := rfl
    simp only [isSpace, hnat, Bool.or_eq_false_iff, Bool.and_eq_false_iff, decide_eq_false_iff_not,
      beq_eq_false_iff_ne]
    simp at hdigit
    omega
  refine ⟨⟨?_, ?_⟩, ?_⟩
  · have hleft : s.toList.dropWhile isSpace = s.toList := by
      rw [List.dropWhile_eq_self_iff]
      intro hpos
      simp [hspace _ (List.getElem_mem hpos)]
    have hright : s.toList.rdropWhile isSpace = s.toList := by
      rw [List.rdropWhile_eq_self_iff]
      intro hne
      simp [hspace _ (List.getLast_mem hne)]
    rw [strip, hleft, hright, String.ofList_toList]
  · rintro rfl
    cases hlength
  · rintro rfl
    revert hlength
    decide

/-- The settings read from the environment are clean. -/
theorem fromEnv_clean {env : Environment} {workspace : Option WorkspaceId}
    {settings : WorkerSettings} (h : WorkerSettings.fromEnv env workspace = .ok settings) :
    IsToken settings.agentName ∧ settings.profile.Clean := by
  by_cases hname : env.text "AGENT_NAME" = ""
  · simp only [WorkerSettings.fromEnv, if_pos hname] at h
    split_ifs at h
  · simp only [WorkerSettings.fromEnv, if_neg hname] at h
    split_ifs at h
    cases h
    refine ⟨isToken_strip hname, ?_⟩
    exact {
      harness := env.isToken_declared _
      harnessVersion := env.isToken_declared _
      provider := env.isToken_declared _
      model := env.isToken_declared _
      declaredModel := isToken_unknown
      source := by
        simp only [profileFromEnv]
        split
        · simp [*]
        · simp [*]
      capabilities := cleanItems_clean _
      workspace := fun id hid => by
        obtain ⟨value, -, rfl⟩ := Option.map_eq_some_iff.mp hid
        exact isToken_of_isWorkspaceId value.2 }

/-- What the agent declares leaves a profile clean. -/
theorem declare_clean {settings : WorkerSettings} (h : settings.profile.Clean)
    (capabilities : List String) (model : Option String) :
    (settings.declare capabilities model).Clean := by
  have hdeclared : IsToken (if strip (model.getD "") = "" then unknown
      else strip (model.getD "")) := by
    split
    · exact isToken_unknown
    · next hne => exact isToken_strip hne
  have hmerged : CleanItems (settings.profile.capabilities ++
      (capabilities.map strip).filter (· ≠ "")).eraseDups := by
    refine ⟨fun item hitem => ?_, nodup_eraseDups _⟩
    rcases List.mem_append.mp (List.mem_eraseDups.mp hitem) with hitem | hitem
    · exact h.capabilities.1 item hitem
    · obtain ⟨hmem, hne⟩ := List.mem_filter.mp hitem
      obtain ⟨raw, -, rfl⟩ := List.mem_map.mp hmem
      exact isToken_strip (by simpa using hne)
  unfold WorkerSettings.declare
  dsimp only
  generalize (if strip (model.getD "") = "" then unknown else strip (model.getD "")) = given
    at hdeclared ⊢
  split
  · next hunstated =>
    exact { h with
      model := hdeclared
      declaredModel := hdeclared
      source := ⟨fun heq => (by cases heq), fun heq => absurd heq hunstated.2⟩
      capabilities := hmerged }
  · exact { h with
      declaredModel := hdeclared
      capabilities := hmerged }

/-! ### The hub reads it back -/

section

variable {metadata : Fields} {key text : String} {c c' : Conn}

/-- What `_profile_text` makes of a clean text. -/
def reported (text : String) : Option String := if text = unknown then none else some text

/-- A text reported is the text itself, and the unknown where it was none. -/
theorem reported_getD (text : String) : (reported text).getD unknown = text := by
  unfold reported
  split
  · next h => rw [h]; rfl
  · rfl

/-- A token of the profile is read as it is. -/
theorem commits_profileText (h : metadata.lookup key = some (.str text)) (htext : IsToken text) :
    Commits (profileText metadata key) c (reported text) c := by
  have hreported : (some (strip text)).filter (fun t => t ≠ "" ∧ t ≠ unknown) = reported text := by
    rw [htext.1, Option.filter_some, reported]
    by_cases hunknown : text = unknown
    · simp [hunknown]
    · simp [hunknown, htext.2]
  simp only [profileText, h, hreported]
  exact commits_pure.mpr ⟨rfl, rfl⟩

/-- A list of texts is read back. -/
theorem mapM_asStr? (items : List String) : (items.map Json.str).mapM Json.asStr? = some items := by
  induction items with
  | nil => rfl
  | cons item items ih => simp [List.mapM_cons, ih, Json.asStr?]

/-- A list of texts in the profile is read as it is. -/
theorem commits_stringList {items : List String}
    (h : metadata.lookup key = some (.arr (items.map .str))) :
    Commits (stringList metadata key) c items c := by
  simp only [stringList, h]
  exact commits_orRefuse.mpr ⟨mapM_asStr? items, rfl⟩

end

/-- A source is read back from its text. -/
theorem ModelSource.ofValue?_value (source : ModelSource) :
    ModelSource.ofValue? source.value = some source := by
  cases source <;> rfl

/-- The text of a source is a token. -/
theorem isToken_source (source : ModelSource) : IsToken source.value := by
  cases source <;> exact ⟨by decide, by decide⟩

/-- **The hub reads the profile the client sends.** -/
theorem commits_profile_ready {p : AgentProfile} (hp : p.Clean) (w : WorkerClient)
    (operationId messageId : String) (c : Conn) :
    Commits (profile (w.ready p operationId messageId).metadata) c p c := by
  generalize hmetadata : (w.ready p operationId messageId).metadata = metadata
  have hworkspace : Commits (profileText metadata "hub.workspace_id") c p.workspaceId c := by
    cases hid : p.workspaceId with
    | none =>
      have hnone : metadata.lookup "hub.workspace_id" = none := by
        rw [← hmetadata, WorkerClient.ready, hid]
        rfl
      rw [profileText, hnone]
      exact commits_pure.mpr ⟨rfl, rfl⟩
    | some id =>
      obtain ⟨htoken, hknown⟩ := hp.workspace id hid
      have hlookup : metadata.lookup "hub.workspace_id" = some (.str id) := by
        rw [← hmetadata, WorkerClient.ready, hid]
        rfl
      have hreads := commits_profileText (c := c) hlookup htoken
      rwa [reported, if_neg hknown] at hreads
  have hsource : ¬ (reported p.model ≠ none ∧ p.modelSource = .unknown) := by
    rintro ⟨hmodel, hunknown⟩
    exact hmodel (if_pos (hp.source.mp hunknown))
  have hstated : ModelSource.ofValue? ((reported p.modelSource.value).getD unknown) =
      some p.modelSource := by
    rw [reported_getD, ModelSource.ofValue?_value]
  subst hmetadata
  unfold profile
  refine commits_bind.mpr ⟨_, c, commits_profileText rfl hp.model, ?_⟩
  refine commits_bind.mpr ⟨_, c, commits_profileText rfl (isToken_source p.modelSource), ?_⟩
  refine commits_bind.mpr ⟨_, c, commits_orRefuse.mpr ⟨hstated, rfl⟩, ?_⟩
  refine commits_bind.mpr ⟨(), c, commits_refuseWhen.mpr ⟨hsource, rfl⟩, ?_⟩
  refine commits_bind.mpr ⟨_, c, commits_stringList rfl, ?_⟩
  refine commits_bind.mpr ⟨_, c, commits_profileText rfl hp.harness, ?_⟩
  refine commits_bind.mpr ⟨_, c, commits_profileText rfl hp.harnessVersion, ?_⟩
  refine commits_bind.mpr ⟨_, c, commits_profileText rfl hp.provider, ?_⟩
  refine commits_bind.mpr ⟨_, c, hworkspace, ?_⟩
  refine commits_bind.mpr ⟨_, c, commits_profileText rfl hp.declaredModel, ?_⟩
  refine commits_pure.mpr ⟨?_, rfl⟩
  have hcapabilities : ((p.capabilities.map strip).filter fun item => item ≠ "").eraseDups =
      p.capabilities := cleanItems_of_clean hp.capabilities
  have hkept : (if reported p.model = none then ModelSource.unknown else p.modelSource) =
      p.modelSource := by
    by_cases hmodel : p.model = unknown
    · rw [reported, if_pos hmodel, if_pos rfl, hp.source.mpr hmodel]
    · rw [reported, if_neg hmodel, if_neg (by simp)]
  simp only [reported_getD, hcapabilities, hkept]

/-! ### The hub stores it -/

/-- An admitted agent has the profile and the process it came with. -/
theorem Admits.row {d d' : Db} {name instanceId contextId : String} {p : AgentProfile}
    {remoteAddr : Option String} {ts : Stamp} {a : AgentRecord}
    (h : Admits d name instanceId p remoteAddr ts contextId d')
    (ha : d'.agents.find? name = some a) :
    a.profile = p ∧ a.contextId = contextId ∧ a.workerInstanceId = instanceId := by
  cases h with
  | new _ hnew hcontext =>
    have hrow : (d.agents.insertOrIgnore (newAgent name contextId instanceId p remoteAddr ts)).find?
        name = some (newAgent name contextId instanceId p remoteAddr ts) :=
      Table.find?_insertOrIgnore_self hnew
    obtain rfl := Option.some.inj (hrow.symm.trans ha)
    exact ⟨rfl, rfl, rfl⟩
  | returned previous hprev hnot =>
    rw [Db.readmit_agents, Table.find?_modify_self, hprev] at ha
    obtain rfl := Option.some.inj ha
    exact ⟨rfl, rfl, rfl⟩

/-- The row of the agent, and a new event that tells Alice of it, say `p`. -/
structure Db.Identifies (d d' : Db) (name : String) (p : AgentProfile) (a : AgentRecord) :
    Prop where
  row : d'.agents.find? name = some a
  profile : a.profile = p
  told : ∃ e ∈ d'.events, e ∉ d.events ∧ e.state = .queued ∧
    e.payload = .agentCheckedIn name p a.contextId a.workerInstanceId

/-- **A check-in that is no replay** identifies the agent with the profile it came with. -/
theorem checkIn_identifies {c c' : Conn} {name : String} {p : AgentProfile}
    {instanceId : Option String} {op : Ledgered AgentRecord} {remoteAddr : Option String}
    {m : Mutation AgentRecord} (h : Commits (checkIn name p instanceId op remoteAddr) c m c')
    (hfresh : ∀ id hash, op.entry? = some (id, hash) →
      c.db.operations.find? (name, id) = none) :
    ∃ a, c.db.Identifies c'.db name p a := by
  obtain ⟨-, ⟨id, hash, row, hentry, hrow, -⟩ | ⟨_, contextId, d, a, _, _, _, _, _, -, -, -, -,
    hadmits, -, ha, -, -, -, hdb⟩⟩ := checkIn_cases h
  · rw [hfresh id hash hentry] at hrow
    cases hrow
  obtain ⟨hprofile, hcontext, hinstance⟩ := hadmits.row ha
  have hevents : d.events = c.db.events := hadmits.frame Db.events fun _ => rfl
  refine ⟨a, ?_, hprofile, ?_⟩
  · rw [hdb]
    exact ha
  · rw [hdb, hcontext, hinstance, ← hevents]
    refine ⟨_, Serial.mem_append.mpr (.inr rfl), fun hmem => ?_, rfl, rfl⟩
    have hle := Serial.key_le_seq hmem
    exact absurd hle (Nat.not_succ_le_self _)

/-- A READY request that is accepted checks the agent in with the profile the hub read. -/
theorem dispatch_ready {r : Rendering} {c c' : Conn} {m : A2AMessage} {remoteAddr : Option String}
    {x : Response} {name : String} {p : AgentProfile} (htask : m.taskId = none)
    (hkind : m.kind? = none) (hname : fieldText? m.metadata "hub.agent" = some name)
    (hprofile : ∀ c, Commits (profile m.metadata) c p c)
    (h : Commits (dispatch r remoteAddr (.send m)) c x c')
    (hfresh : ∀ id, fieldText? m.metadata "hub.operation_id" = some id →
      c.db.operations.find? (name, id) = none) : ∃ a, c.db.Identifies c'.db name p a := by
  simp only [dispatch, commits_bind] at h
  obtain ⟨_, t, hsizes, h⟩ := h
  obtain rfl := checkMessagePartSizes_cases hsizes
  obtain ⟨hbeat, -⟩ | ⟨-, h⟩ := send_agent_cases htask h
  · rw [hkind] at hbeat
    cases hbeat
  simp only [checkInIntent, commits_bind, commits_refuseWhen, commits_requireSchemaVersion,
    commits_requireOperationId, commits_requireWorkerInstanceId, commits_orRefuse, commits_store,
    commits_pure] at h
  obtain ⟨_, _, ⟨-, rfl⟩, _, _, ⟨-, rfl⟩, operationId, _, ⟨hop, rfl⟩, instanceId, _, ⟨-, rfl⟩,
    name', _, ⟨hname', rfl⟩, p', _, hread, outcome, _, hcheck, -, rfl⟩ := h
  obtain rfl : name = name' := Option.some.inj (hname.symm.trans hname')
  obtain ⟨rfl, rfl⟩ := (hprofile _).unique hread
  refine checkIn_identifies hcheck fun id hash hentry => ?_
  obtain ⟨rfl, -⟩ := Prod.mk.inj (Option.some.inj hentry)
  exact hfresh operationId hop

/-- **The identity of a worker.**  What the launcher put in the environment and the agent declares
    is what the hub reads in the READY message, in every state and on every try; and when the hub
    accepts the check-in and has not run it before, the row of the agent has that profile, and a new
    event in the inbox tells Alice of it under the agent's name, context and process. -/
theorem identity_reaches_hub {env : Environment} {workspace : Option WorkspaceId}
    {settings : WorkerSettings} (hlaunch : WorkerSettings.fromEnv env workspace = .ok settings)
    {w w' : WorkerClient} (hw : w.settings = settings) (capabilities : List String)
    (model : Option String) {out : Outgoing}
    (hinvoke : w.invoke (.checkIn capabilities model) = (w', some out)) :
    let p := settings.declare capabilities model
    (∀ c, Commits (profile out.message.metadata) c p c) ∧
    ∀ (r : Rendering) (remoteAddr : Option String) (clock : ℕ → Moment) (s : Hub) x,
      (atomically (dispatch r remoteAddr out.request) (s.connect clock)).1 = .ok x →
      (∀ id, out.message.operation? = some id →
        s.db.operations.find? (settings.agentName, id) = none) →
      ∃ a, s.db.Identifies (out.request.exec r remoteAddr clock s).db settings.agentName p a := by
  intro p
  obtain ⟨hname, hclean⟩ := fromEnv_clean hlaunch
  have hsettings : w'.settings = settings := by
    obtain ⟨hnone, -⟩ | ⟨_, -, hinvokes⟩ := w.invoke_cases (.checkIn capabilities model)
    · rw [hinvoke] at hnone
      cases hnone
    · rw [hinvoke] at hinvokes
      exact hinvokes.settings.trans hw
  have hout : ∃ operationId messageId,
      out = ⟨.checkIn p, operationId, w'.ready p operationId messageId⟩ := by
    obtain ⟨rfl, hout⟩ := Prod.mk.inj hinvoke
    rw [← Option.some.inj hout]
    subst hw
    exact ⟨_, _, rfl⟩
  obtain ⟨operationId, messageId, rfl⟩ := hout
  have hreads := fun c =>
    commits_profile_ready (declare_clean hclean capabilities model) w' operationId messageId c
  refine ⟨hreads, fun r remoteAddr clock s x hx hfresh => ?_⟩
  have hagent : fieldText? (w'.ready p operationId messageId).metadata "hub.agent" =
      some settings.agentName := by
    rw [← hsettings]
    exact fieldText?_token (hsettings ▸ hname) rfl
  have hkind : (w'.ready p operationId messageId).kind? = none := by
    cases hworkspace : p.workspaceId <;>
      simp [A2AMessage.kind?, WorkerClient.ready, hworkspace]
  exact dispatch_ready rfl hkind hagent hreads (commits_of_atomically hx) hfresh

/-- What the launcher of Ada exports. -/
def adaEnv : Environment := fun name =>
  if name = "HUB_URL" then some "http://127.0.0.1:8080/" else
  if name = "HUB_TOKEN" then some "token" else
  if name = "AGENT_NAME" then some " ada " else
  if name = "HUB_HARNESS" then some "codex " else
  if name = "HUB_CAPABILITIES" then some "python, ,lean" else none

/-- The client that is launched so. -/
def adaClient : WorkerClient :=
  ⟨{ agentName := "ada", profile := profileFromEnv adaEnv }, "ada-1", .unary, none, none,
    fun _ => none⟩

/-- Ada, who says that she can write Python, and which model she is. -/
theorem ada_identified :
    ∃ w out, WorkerSettings.fromEnv adaEnv none = .ok adaClient.settings ∧
      adaClient.invoke (.checkIn ["python "] (some "gpt")) = (w, some out) ∧
      ∃ a, (Hub.start .unary).db.Identifies
        (out.request.exec .blank none stoppedClock (Hub.start .unary)).db "ada"
        { harness := "codex", capabilities := ["python", "lean"], model := "gpt"
          modelSource := .declared, declaredModel := "gpt" } a := by
  have hname : adaEnv.text "AGENT_NAME" = "ada" := by decide +kernel
  have hlaunch : WorkerSettings.fromEnv adaEnv none = .ok adaClient.settings := by
    rw [WorkerSettings.fromEnv, if_neg (by decide +kernel), if_neg (by decide +kernel),
      if_neg (by decide +kernel), hname, if_neg (by decide)]
    rfl
  have hprofile : adaClient.settings.declare ["python "] (some "gpt") =
      { harness := "codex", capabilities := ["python", "lean"], model := "gpt"
        modelSource := .declared, declaredModel := "gpt" } := by decide +kernel
  obtain ⟨w, out, hinvoke⟩ : ∃ w out,
      adaClient.invoke (.checkIn ["python "] (some "gpt")) = (w, some out) := ⟨_, _, rfl⟩
  have haccepted : ∀ out ∈ (adaClient.invoke (.checkIn ["python "] (some "gpt"))).2,
      (atomically (dispatch .blank none out.request)
        ((Hub.start .unary).connect stoppedClock)).1.isOk = true := by decide +kernel
  have hok := haccepted out (congrArg Prod.snd hinvoke)
  refine ⟨w, out, hlaunch, hinvoke, ?_⟩
  cases hres : (atomically (dispatch .blank none out.request)
      ((Hub.start .unary).connect stoppedClock)).1 with
  | error e =>
    rw [hres] at hok
    cases hok
  | ok x =>
    obtain ⟨-, hstored⟩ := identity_reaches_hub hlaunch rfl ["python "] (some "gpt") hinvoke
    rw [hprofile] at hstored
    exact hstored .blank none stoppedClock (.start .unary) x hres fun _ _ => rfl

end AgentHub
