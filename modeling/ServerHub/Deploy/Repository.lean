import ServerHub.Deploy.Requests

namespace Deploy

open Posix Interleave Interleave.Prog

def afterScheme : Text → Option Text
  | [] => none
  | c :: t => if hasPrefix (c :: t) "://".toList then some ((c :: t).drop 3) else afterScheme t

def afterFirst (c : Char) (s : Text) : Text := (s.dropWhile (· ≠ c)).drop 1

def ownerPart (repo : Text) : Text :=
  match afterScheme repo with
  | some rest => afterFirst '/' rest
  | none =>
      if ':' ∈ repo then afterFirst ':' repo
      else if 2 ≤ repo.count '/' then afterFirst '/' repo
      else repo

def ownerName (repo : Text) : Text := trimSuffix (ownerPart repo) dotGit

def Denotes (repo fullName : Text) : Prop := repo ≠ [] ∧ ownerName repo = fullName

section Names

variable {repo s suffix R : Text}

theorem afterScheme_suffix {rest : Text} (h : afterScheme s = some rest) : rest <:+ s := by
  induction s with
  | nil => cases h
  | cons c t ih =>
    unfold afterScheme at h
    split at h
    · cases h
      exact List.drop_suffix 3 (c :: t)
    · exact (ih h).trans (List.suffix_cons c t)

theorem afterFirst_suffix (c : Char) (s : Text) : afterFirst c s <:+ s :=
  (List.drop_suffix 1 _).trans (List.dropWhile_suffix _)

theorem ownerPart_suffix (repo : Text) : ownerPart repo <:+ repo := by
  unfold ownerPart
  split
  · rename_i rest h
    exact (afterFirst_suffix '/' rest).trans (afterScheme_suffix h)
  · split_ifs
    · exact afterFirst_suffix ':' repo
    · exact afterFirst_suffix '/' repo
    · exact List.suffix_refl repo

theorem trimSuffix_isPrefix (s suffix : Text) : trimSuffix s suffix <+: s := by
  unfold trimSuffix
  split_ifs
  · exact List.take_prefix _ s
  · exact List.prefix_refl s

@[simp] theorem trimSuffix_append (s suffix : Text) : trimSuffix (s ++ suffix) suffix = s := by
  simp [trimSuffix,List.isSuffixOf_iff_suffix]

theorem trimSuffix_of_not (h : ¬ suffix <:+ s) : trimSuffix s suffix = s := by
  simp [trimSuffix,List.isSuffixOf_iff_suffix,h]

theorem trimSuffix_eq (s suffix : Text) :
    s = trimSuffix s suffix ∨ s = trimSuffix s suffix ++ suffix := by
  by_cases h : suffix <:+ s
  · obtain ⟨front,rfl⟩ := h
    rw [trimSuffix_append]
    exact .inr rfl
  · exact .inl (trimSuffix_of_not h).symm

theorem ownerName_infix (repo : Text) : ownerName repo <:+: repo :=
  (trimSuffix_isPrefix _ dotGit).isInfix.trans (ownerPart_suffix repo).isInfix

theorem Denotes.matches {p : PushPayload} (h : Denotes repo p.fullName) : repoMatch p repo = true := by
  have hin := ownerName_infix repo
  rw [h.2] at hin
  simp [repoMatch,contains,h.1,hin]

@[simp] theorem ownerPart_gitHubURL (R : Text) : ownerPart (gitHubURL ++ R) = R := rfl

theorem dotGit_suffix_gitHubURL : dotGit <:+ gitHubURL ++ R ↔ dotGit <:+ R := by
  refine ⟨fun h => ?_,fun h => h.trans (List.suffix_append gitHubURL R)⟩
  rcases List.suffix_or_suffix_of_suffix h (List.suffix_append gitHubURL R) with hR | hR
  · exact hR
  · have htails := (List.mem_tails R dotGit).mpr hR
    simp only [show dotGit.tails = [dotGit,"git".toList,"it".toList,"t".toList,[]] from rfl,
      List.mem_cons,List.not_mem_nil,or_false] at htails
    rcases htails with rfl | rfl | rfl | rfl | rfl
    · exact List.suffix_refl dotGit
    all_goals exact absurd h (by decide)

theorem denotes_gitHubURL (hR : ¬ dotGit <:+ R)
    (h : trimSuffix repo dotGit = trimSuffix (gitHubURL ++ R) dotGit) : Denotes repo R := by
  rw [trimSuffix_of_not (mt dotGit_suffix_gitHubURL.mp hR)] at h
  rcases trimSuffix_eq repo dotGit with hrepo | hrepo
  · rw [h] at hrepo
    subst hrepo
    exact ⟨nofun,trimSuffix_of_not hR⟩
  · rw [h,List.append_assoc] at hrepo
    subst hrepo
    exact ⟨nofun,trimSuffix_append R dotGit⟩

theorem not_denotes_gitHubURL (hR : dotGit <:+ R)
    (h : trimSuffix repo dotGit = trimSuffix (gitHubURL ++ R) dotGit) : ¬ Denotes repo R := by
  obtain ⟨name,rfl⟩ := hR
  rw [← List.append_assoc,trimSuffix_append] at h
  have hlen : (ownerName repo).length < (name ++ dotGit).length := by
    have hgit : 0 < dotGit.length := by decide
    rw [List.length_append]
    rcases trimSuffix_eq repo dotGit with hrepo | hrepo
    · rw [h] at hrepo
      rw [hrepo,ownerName,ownerPart_gitHubURL]
      have := (trimSuffix_isPrefix name dotGit).length_le
      omega
    · rw [h,List.append_assoc] at hrepo
      rw [hrepo,ownerName,ownerPart_gitHubURL,trimSuffix_append]
      omega
  intro hd
  rw [hd.2] at hlen
  exact lt_irrefl _ hlen

def Mistaken (p : PushPayload) (repo : Text) : Prop :=
  (p.fullName <:+: repo ∨ trimSuffix repo dotGit = trimSuffix p.htmlURL dotGit) ∧
      ownerName repo ≠ p.fullName ∨
    dotGit <:+ p.fullName ∧
      trimSuffix repo dotGit = gitHubURL ++ trimSuffix p.fullName dotGit

theorem Mistaken.not_denotes {p : PushPayload} (h : Mistaken p repo) : ¬ Denotes repo p.fullName := by
  rcases h with ⟨-,hne⟩ | ⟨hR,htrim⟩
  · exact fun hd => hne hd.2
  · refine not_denotes_gitHubURL hR ?_
    obtain ⟨name,hname⟩ := hR
    rw [htrim,← hname,trimSuffix_append,← List.append_assoc,trimSuffix_append]

theorem Mistaken.matches {p : PushPayload} (h : Mistaken p repo) (hrepo : repo ≠ []) :
    repoMatch p repo = true := by
  rcases h with ⟨hin | hurl,-⟩ | ⟨hR,htrim⟩
  · simp [repoMatch,contains,hrepo,hin]
  · simp [repoMatch,hrepo,hurl]
  · obtain ⟨name,hname⟩ := hR
    rw [← hname,trimSuffix_append] at htrim
    have hfull : trimSuffix (gitHubURL ++ p.fullName) dotGit = gitHubURL ++ name := by
      rw [← hname,← List.append_assoc,trimSuffix_append]
    simp [repoMatch,hrepo,htrim,hfull]

theorem denotes_of_matches {p : PushPayload} (hm : repoMatch p repo = true) (h : ¬ Mistaken p repo) :
    Denotes repo p.fullName := by
  simp only [repoMatch,contains,Bool.and_eq_true,Bool.or_eq_true,decide_eq_true_eq,beq_iff_eq] at hm
  obtain ⟨hrepo,(hin | hurl) | hown⟩ := hm
  · by_contra hd
    exact h (.inl ⟨.inl hin,fun he => hd ⟨hrepo,he⟩⟩)
  · by_contra hd
    exact h (.inl ⟨.inr hurl,fun he => hd ⟨hrepo,he⟩⟩)
  · refine denotes_gitHubURL (fun hR => h (.inr ⟨hR,?_⟩)) hown
    obtain ⟨name,hname⟩ := hR
    rw [hown,← hname,trimSuffix_append,← List.append_assoc,trimSuffix_append]

theorem repoMatch_iff {p : PushPayload} (hrepo : repo ≠ []) :
    (repoMatch p repo = true ↔ Denotes repo p.fullName) ↔ ¬ Mistaken p repo :=
  ⟨fun h hm => hm.not_denotes (h.mp (hm.matches hrepo)),
    fun h => ⟨fun hm => denotes_of_matches hm h,Denotes.matches⟩⟩

end Names

-- a signed push event whose payload is p
structure Genuine (lib : Library) (secret : Text) (r : PushRequest) (p : PushPayload) : Prop where
  configured : secret ≠ []
  signature : verifySignature lib secret (r.body.take bodyLimit) r.signature = true
  event : r.event = "push".toList
  payload : r.decoded = some p
  branch : pushedBranch p ≠ []
  after : p.after ≠ []

def Deployed (s t : Records) (q : Project) : Prop :=
  q ∈ (t.jobs.drop s.jobs.length).map (fun job => job.2.project) ∨
    q.id ∈ (t.deployments.drop s.deployments.length).map (·.projectID)

def OwnOnly (p : PushPayload) (s t : Records) : Prop :=
  ∀ q ∈ s.projects,
    Deployed s t q ↔ q.branch = pushedBranch p ∧ Denotes q.repository p.fullName

section Push

variable {host : Nat → Host} {pid : Nat} {p : PushPayload} {s t u : Records} {q : Project}
  {ms : List Project}

structure Added (ms : List Project) (s t : Records) : Prop where
  rows : t.deployments.map (·.projectID) = s.deployments.map (·.projectID) ++ ms.map Project.id
  jobs : t.jobs.map (fun job => job.2.project) =
    s.jobs.map (fun job => job.2.project) ++ ms.filter Project.autoDeploy

theorem added_nil (s : Records) : Added [] s s := ⟨by simp,by simp⟩

theorem Added.cons (h : Added [q] s t) (hms : Added ms t u) : Added (q :: ms) s u where
  rows := by rw [hms.rows,h.rows]; simp
  jobs := by
    rw [hms.jobs,h.jobs,List.append_assoc,← List.filter_append]
    rfl

variable (host pid p q) in
theorem deployMatched_run (s : Records) :
    ∃ t r, (deployMatched p q).alone (fun i => exec host (fun _ => false) pid i) s =
      some (t,r) ∧ Added [q] s t := by
  unfold deployMatched
  cases ha : q.autoDeploy
  · refine ⟨_,_,rfl,?_,?_⟩ <;> simp [Records.addDeployment,ha]
  · refine ⟨_,_,rfl,?_,?_⟩ <;> simp [Records.addDeployment,ha]

variable (host pid p) in
theorem collect_run (ms : List Project) (s : Records) :
    ∃ t rs, (collect (deployMatched p) ms).alone (fun i => exec host (fun _ => false) pid i) s =
      some (t,rs) ∧ Added ms s t := by
  induction ms generalizing s with
  | nil => exact ⟨s,[],rfl,added_nil s⟩
  | cons q ms ih =>
    obtain ⟨t,r,ht,hq⟩ := deployMatched_run host pid p q s
    obtain ⟨u,rs,hu,hms⟩ := ih t
    refine ⟨u,r :: rs,?_,hq.cons hms⟩
    rw [collect_cons,alone_bind,ht]
    simp [alone_bind,hu]

variable (host pid) in
theorem gitHub_run {lib : Library} {secret : Text} {r : PushRequest} (h : Genuine lib secret r p)
    (s : Records) :
    ∃ t answer, (gitHub lib secret r).alone (fun i => exec host (fun _ => false) pid i) s =
      some (t,answer) ∧ Added (matched p s.projects) s t := by
  obtain ⟨t,rs,ht,hadd⟩ := collect_run host pid p (matched p s.projects) s
  refine ⟨t,.pushed rs,?_,hadd⟩
  unfold gitHub
  rw [if_neg h.configured,if_neg (by simp [h.signature]),if_neg (by rw [h.event]; decide),
    if_neg (by simp [h.event]),h.payload]
  simp only [h.branch,h.after,or_self,if_false]
  rw [alone_bind,alone_perform]
  simp only [exec,Option.bind_some]
  rw [alone_bind,ht]
  rfl

theorem Added.deployed (h : Added ms s t) (hsub : ms ⊆ s.projects)
    (hid : (s.projects.map Project.id).Nodup) (hq : q ∈ s.projects) : Deployed s t q ↔ q ∈ ms := by
  have hjobs : (t.jobs.drop s.jobs.length).map (fun job => job.2.project) =
      ms.filter Project.autoDeploy := by
    rw [List.map_drop,h.jobs,← List.length_map (f := fun job => job.2.project),List.drop_left]
  have hrows : (t.deployments.drop s.deployments.length).map (·.projectID) = ms.map Project.id := by
    rw [List.map_drop,h.rows,← List.length_map (f := fun d => d.projectID),List.drop_left]
  rw [Deployed,hjobs,hrows]
  constructor
  · rintro (hm | hm)
    · exact (List.mem_filter.mp hm).1
    · obtain ⟨q',hq',he⟩ := List.mem_map.mp hm
      obtain rfl := List.inj_on_of_nodup_map hid (hsub hq') hq he
      exact hq'
  · exact fun hm => .inr (List.mem_map_of_mem hm)

theorem push_own_only_iff (host : Nat → Host) (pid : Nat) {lib : Library} {secret : Text}
    {r : PushRequest} (hr : Genuine lib secret r p) {s : Records}
    (hid : (s.projects.map Project.id).Nodup) :
    ∃ t answer, (gitHub lib secret r).alone (fun i => exec host (fun _ => false) pid i) s =
        some (t,answer) ∧
      (OwnOnly p s t ↔ ∀ q ∈ s.projects, q.branch = pushedBranch p → q.repository ≠ [] →
        ¬ Mistaken p q.repository) := by
  obtain ⟨t,answer,ht,hadd⟩ := gitHub_run host pid hr s
  refine ⟨t,answer,ht,forall₂_congr fun q hq => ?_⟩
  have hsub : matched p s.projects ⊆ s.projects := List.filter_subset_self _
  rw [hadd.deployed hsub hid hq,matched,List.mem_filter]
  by_cases hb : q.branch = pushedBranch p
  · by_cases hrepo : q.repository = []
    · simp [hq,hb,hrepo,repoMatch,Denotes]
    · simp only [hq,hb,true_and,beq_self_eq_true,Bool.true_and,true_implies,ne_eq,hrepo,
        not_false_eq_true]
      exact repoMatch_iff hrepo
  · simp [hb]

end Push

section Sample

def quietHost : Host where
  tree := ⟨[],nofun⟩
  unmarshal _ := none
  resolveError _ := "no such file".toList
  statError _ := "no such file".toList
  readError _ := "no such file".toList
  urlError _ := none
  command _ _ _ := ([],none)
  health _ _ := (true,[])

def pushMac : Bytes := [126,135,106,77,9,131,166,186,233,176,205,72,201,236,198,221,60,142,24,41,21,39,
  253,10,238,206,31,49,229,164,102,195]

def pushLibrary : Library where
  hmac _ _ := pushMac
  decodeHex _ := some pushMac
  parseInt _ := none

def samplePayload : PushPayload :=
  ⟨"refs/heads/main".toList,"c0ffee".toList,"acme/p1".toList,"https://github.com/acme/p1".toList⟩

def samplePush : PushRequest where
  body := ("\x7b\"ref\":\"refs/heads/main\",\"after\":\"c0ffee\",\"repository\":\x7b\"full_name\":" ++
    "\"acme/p1\",\"html_url\":\"https://github.com/acme/p1\"\x7d\x7d").toUTF8.toList
  signature := "sha256=7e876a4d0983a6bae9b0cd48c9ecc6dd3c8e18291527fd0aeece1f31e5a466c3".toList
  event := "push".toList
  decoded := some samplePayload

theorem samplePush_genuine : Genuine pushLibrary "secret".toList samplePush samplePayload :=
  ⟨by decide,by simp [verifySignature,samplePush,pushLibrary,hasPrefix],rfl,rfl,by decide,by decide⟩

def trackedProject (repository : Text) : Project where
  id := 1
  name := "web".toList
  repository := repository
  branch := "main".toList
  deploymentPath := "/srv/web".toList
  composeFile := "docker-compose.yml".toList
  healthURL := []
  autoDeploy := true

def trackedRecords (repository : Text) : Records where
  projects := [trackedProject repository]
  deployments := []
  nextDeployment := 1
  operations := []
  inserts := 0
  jobs := []

theorem push_own_only_tracked :
    ∃ t answer, (gitHub pushLibrary "secret".toList samplePush).alone
        (fun i => exec (fun _ => quietHost) (fun _ => false) 0 i)
        (trackedRecords "git@github.com:acme/p1.git".toList) = some (t,answer) ∧
      OwnOnly samplePayload (trackedRecords "git@github.com:acme/p1.git".toList) t := by
  obtain ⟨t,answer,ht,hiff⟩ := push_own_only_iff (fun _ => quietHost) 0 samplePush_genuine
    (s := trackedRecords "git@github.com:acme/p1.git".toList) (by decide)
  refine ⟨t,answer,ht,hiff.mpr ?_⟩
  simp only [trackedRecords,List.mem_singleton,forall_eq]
  rintro - - (⟨-,hne⟩ | ⟨hgit,-⟩)
  · exact hne rfl
  · exact absurd hgit (by decide)

theorem push_deploys_longer_name :
    ∃ t answer, (gitHub pushLibrary "secret".toList samplePush).alone
        (fun i => exec (fun _ => quietHost) (fun _ => false) 0 i)
        (trackedRecords "https://github.com/acme/p10".toList) = some (t,answer) ∧
      Deployed (trackedRecords "https://github.com/acme/p10".toList) t
        (trackedProject "https://github.com/acme/p10".toList) ∧
      ownerName "https://github.com/acme/p10".toList = "acme/p10".toList ∧
      ¬ OwnOnly samplePayload (trackedRecords "https://github.com/acme/p10".toList) t := by
  obtain ⟨t,answer,ht,hadd⟩ := gitHub_run (fun _ => quietHost) 0 samplePush_genuine
    (trackedRecords "https://github.com/acme/p10".toList)
  have hdep : Deployed (trackedRecords "https://github.com/acme/p10".toList) t
      (trackedProject "https://github.com/acme/p10".toList) :=
    (hadd.deployed (List.filter_subset_self _) (by decide) (by simp [trackedRecords])).mpr (by decide)
  refine ⟨t,answer,ht,hdep,rfl,fun h => ?_⟩
  exact absurd ((h _ (by simp [trackedRecords])).mp hdep).2.2 (by decide)

end Sample

end Deploy
