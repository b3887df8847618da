import ServerHub.Deploy.Contained

namespace Deploy

open Posix Posix.FileTree

variable {h : Host} {roots : List Text} {doc : Yaml} {composePath base field p v : Text} {q : Place}

section Naming

def numbered (field : Text) (i : Nat) : Text := field ++ ['['] ++ Nat.toDigits 10 i ++ [']']

-- a single string counts as a list of one
inductive Listed : Option Yaml → Nat → Yaml → Prop
  | single (s : Text) : Listed (some (.text s)) 0 (.text s)
  | item {items : List Yaml} {i : Nat} {v : Yaml} (hi : items[i]? = some v) :
      Listed (some (.list items)) i v

inductive PathEntry : Yaml → Text → Prop
  | text (s : Text) : PathEntry (.text s) s
  | object {v : Yaml} {s : Text} (hpath : v.field "path".toList = some (.text s)) : PathEntry v s

inductive BindSource : Yaml → Text → Prop
  | short {src rest : Text} (hsrc : ':' ∉ src) : BindSource (.text (src ++ ':' :: rest)) src
  | bind {v : Yaml} {src : Text} (htype : v.field "type".toList = some (.text "bind".toList))
      (hsrc : v.field "source".toList = some (.text src)) : BindSource v src
  | untyped {v : Yaml} {src : Text} (htype : v.field "type".toList = none)
      (hsrc : v.field "source".toList = some (.text src)) : BindSource v src

inductive Service (doc : Yaml) (name : Text) (svc : Yaml) : Prop
  | intro {entries : List (Text × Yaml)}
      (hdoc : doc.field "services".toList = some (.map entries)) (hmem : (name,svc) ∈ entries)

def member (name key : Text) : Text := "services.".toList ++ name ++ '.' :: key

-- the host paths of a document, each under the label that the scan gives it
inductive Names (doc : Yaml) : Text → Text → Prop
  | included {i : Nat} {e : Yaml} {v : Text} (hlist : Listed (doc.field "include".toList) i e)
      (hv : PathEntry e v) : Names doc (numbered "include".toList i) v
  | envFile {name v : Text} {svc e : Yaml} {i : Nat} (hsvc : Service doc name svc)
      (hlist : Listed (svc.field "env_file".toList) i e) (hv : PathEntry e v) :
      Names doc (numbered (member name "env_file".toList) i) v
  | extendsFile {name v : Text} {svc ext : Yaml} (hsvc : Service doc name svc)
      (hext : svc.field "extends".toList = some ext)
      (hv : ext.field "file".toList = some (.text v)) :
      Names doc (member name "extends.file".toList) v
  | context {name v : Text} {svc build : Yaml} (hsvc : Service doc name svc)
      (hbuild : svc.field "build".toList = some build)
      (hv : build.field "context".toList = some (.text v)) (hdot : v ≠ dot) :
      Names doc (member name "build.context".toList) v
  | volume {name v : Text} {svc e : Yaml} {i : Nat} (hsvc : Service doc name svc)
      (hlist : Listed (svc.field "volumes".toList) i e) (hv : BindSource e v) :
      Names doc (numbered (member name "volumes".toList) i) v

theorem mem_indexed {paths : List Text} {i : Nat} (hv : paths[i]? = some v) :
    ⟨numbered field i,v⟩ ∈ indexed field paths := by
  obtain ⟨hi,rfl⟩ := List.getElem?_eq_some_iff.mp hv
  exact List.mem_mapIdx.mpr ⟨i,hi,rfl⟩

theorem Listed.items {o : Option Yaml} {i : Nat} {e : Yaml} (hl : Listed o i e) :
    (Yaml.items o)[i]? = some e := by
  cases hl with
  | single s => rfl
  | item hi => exact hi

theorem isMap_of_field {e x : Yaml} {key : Text} (hx : e.field key = some x) : isMap e = true := by
  cases e with
  | map entries => rfl
  | text s => cases hx
  | list items => cases hx
  | other => cases hx

theorem strField_text {e : Yaml} {key s : Text} (hs : e.field key = some (.text s)) :
    strField e key = s := by
  simp [strField,hs,Yaml.asText]

theorem PathEntry.pathOf {e : Yaml} (he : PathEntry e v) : pathOf e = v := by
  cases he with
  | text s => rfl
  | object hpath =>
    have hmap := isMap_of_field hpath
    cases e with
    | map entries => exact strField_text hpath
    | text s => cases hmap
    | list items => cases hmap
    | other => cases hmap

theorem volumeHostPath_map {e : Yaml} (hmap : isMap e = true)
    (htype : strField e "type".toList = "bind".toList ∨
      strField e "type".toList = [] ∧ looksLikeHostPath (strField e "source".toList) = true) :
    volumeHostPath e = strField e "source".toList := by
  cases e with
  | map entries => exact if_pos htype
  | text s => cases hmap
  | list items => cases hmap
  | other => cases hmap

theorem BindSource.volumeHostPath {e : Yaml} (he : BindSource e v)
    (hv : looksLikeHostPath v = true) : volumeHostPath e = v := by
  cases he with
  | short hsrc =>
    rename_i rest
    have hcolon : ':' ∈ v ++ ':' :: rest := by simp
    have hbefore : ∀ c ∈ v, decide (c ≠ ':') = true :=
      fun c hc => decide_eq_true fun he => hsrc (he ▸ hc)
    rw [Deploy.volumeHostPath,if_pos hcolon,List.takeWhile_append_of_pos hbefore]
    simp
  | bind htype hsrc =>
    rw [volumeHostPath_map (isMap_of_field hsrc) (.inl (strField_text htype)),strField_text hsrc]
  | untyped htype hsrc =>
    have hnone : strField e "type".toList = [] := by rw [strField,htype]; rfl
    have hpath : looksLikeHostPath (strField e "source".toList) = true := by
      rwa [strField_text hsrc]
    rw [volumeHostPath_map (isMap_of_field hsrc) (.inr ⟨hnone,hpath⟩),strField_text hsrc]

theorem Service.mem_services {name : Text} {svc : Yaml} (hs : Service doc name svc)
    (hmap : isMap svc = true) : (name,svc) ∈ services doc := by
  obtain ⟨hdoc,hmem⟩ := hs
  simp only [services,hdoc]
  exact (List.mem_insertionSort _).mpr (List.mem_filter.mpr ⟨hmem,hmap⟩)

theorem Service.mem_composeRefs {name key : Text} {svc x : Yaml} {r : OutsideRef}
    (hs : Service doc name svc) (hx : svc.field key = some x) (hr : r ∈ serviceRefs name svc) :
    r ∈ composeRefs doc :=
  List.mem_append_right _
    (List.mem_flatMap.mpr ⟨(name,svc),hs.mem_services (isMap_of_field hx),hr⟩)

theorem Listed.some {o : Option Yaml} {i : Nat} {e : Yaml} (hl : Listed o i e) : ∃ x, o = some x := by
  cases hl with
  | single s => exact ⟨_,rfl⟩
  | item hi => exact ⟨_,rfl⟩

theorem Names.mem_composeRefs (hn : Names doc field v) (hv : looksLikeHostPath v = true) :
    ⟨field,v⟩ ∈ composeRefs doc := by
  cases hn with
  | included hlist hpath =>
    refine List.mem_append_left _ (mem_indexed ?_)
    rw [List.getElem?_map,hlist.items]
    exact congrArg _ hpath.pathOf
  | envFile hsvc hlist hpath =>
    obtain ⟨x,hx⟩ := hlist.some
    refine hsvc.mem_composeRefs hx (List.mem_append_left _ (List.mem_append_left _
      (List.mem_append_left _ (mem_indexed ?_))))
    rw [List.getElem?_map,hlist.items]
    exact congrArg _ hpath.pathOf
  | extendsFile hsvc hext hfile =>
    refine hsvc.mem_composeRefs hext (List.mem_append_left _ (List.mem_append_left _
      (List.mem_append_right _ ?_)))
    rw [hext,Option.bind_some,hfile]
    exact List.mem_singleton.mpr rfl
  | context hsvc hbuild hctx hdot =>
    have hne : v ≠ [] := fun he => by rw [he] at hv; cases hv
    refine hsvc.mem_composeRefs hbuild (List.mem_append_left _ (List.mem_append_right _ ?_))
    rw [hbuild,Option.bind_some,hctx]
    simp only [Option.bind_some,Yaml.asText,if_neg (not_or.mpr ⟨hne,hdot⟩)]
    exact List.mem_singleton.mpr rfl
  | volume hsvc hlist hsrc =>
    obtain ⟨x,hx⟩ := hlist.some
    refine hsvc.mem_composeRefs hx (List.mem_append_right _ (mem_indexed ?_))
    rw [List.getElem?_map,hlist.items]
    exact congrArg _ (hsrc.volumeHostPath hv)

end Naming

section Places

def target (base v : Text) : Text := if isAbs v then v else joinPath base v

def Inside (roots : List Text) (p : Text) : Prop :=
  isAbs p = true ∧ InsideRoots roots (components p)

-- outside as it is written, or leading, links followed, to a place outside
def Escapes (h : Host) (roots : List Text) (base v : Text) : Prop :=
  ¬Inside roots (target base v) ∨
    ∃ q, h.tree.resolve (clean (target base v)) = .ok q ∧ ¬InsideRoots roots q

def NoSlashRoot (roots : List Text) : Prop := ∀ r ∈ roots, components r ≠ []

theorem within_of_insideRoots (hroots : NoSlashRoot roots) (hq : ValidPlace q)
    (hin : InsideRoots roots q) : withinRoots (absText q) roots = true := by
  obtain ⟨r,hr,habs,hpre⟩ := hin
  refine List.any_eq_true.mpr ⟨r,hr,Bool.and_eq_true_iff.mpr ⟨(isAbs_clean r).trans habs,?_⟩⟩
  rw [clean_abs habs]
  exact (within_absText (components_valid habs) hq).mpr (.inr ⟨hroots r hr,hpre⟩)

theorem inside_of_within (hw : withinRoots (clean p) roots = true) : Inside roots p := by
  have habs := isAbs_of_within hw
  rw [clean_abs habs] at hw
  exact ⟨habs,insideRoots_of_within (components_valid habs) hw⟩

theorem within_of_inside (hroots : NoSlashRoot roots) (hin : Inside roots p) :
    withinRoots (clean p) roots = true := by
  rw [clean_abs hin.1]
  exact within_of_insideRoots hroots (components_valid hin.1) hin.2

theorem resolvedOutsideBase_eq (hhome : hasPrefix v ['~'] = false) :
    resolvedOutsideBase h v base roots = true ↔
      withinRoots (clean (target base v)) roots = false ∨
        ∃ q, h.tree.resolve (clean (target base v)) = .ok q ∧
          withinRoots (absText q) roots = false := by
  unfold resolvedOutsideBase target
  rw [if_neg (by simp [hhome])]
  dsimp only
  generalize clean (if isAbs v = true then v else joinPath base v) = p
  cases hw : withinRoots p roots with
  | false => simp
  | true =>
    cases hr : h.tree.resolve p with
    | error e => simp [Host.evalSymlinks,FileTree.evalSymlinks,hr,Except.map]
    | ok q =>
      simp [Host.evalSymlinks,FileTree.evalSymlinks,hr,Except.map,clean_absText (resolve_valid hr)]

theorem Escapes.reported (he : Escapes h roots base v) :
    resolvedOutsideBase h v base roots = true := by
  cases hhome : hasPrefix v ['~'] with
  | true => exact if_pos hhome
  | false =>
    refine (resolvedOutsideBase_eq hhome).mpr ?_
    rcases he with hout | ⟨q,hq,hout⟩
    · exact .inl (Bool.eq_false_iff.mpr fun hw => hout (inside_of_within hw))
    · exact .inr ⟨q,hq,Bool.eq_false_iff.mpr fun hw =>
        hout (insideRoots_of_within (resolve_valid hq) hw)⟩

theorem escapes_of_reported (hroots : NoSlashRoot roots) (hhome : hasPrefix v ['~'] = false)
    (hr : resolvedOutsideBase h v base roots = true) : Escapes h roots base v := by
  rcases (resolvedOutsideBase_eq hhome).mp hr with hw | ⟨q,hq,hw⟩
  · exact .inl fun hin => Bool.noConfusion (hw.symm.trans (within_of_inside hroots hin))
  · exact .inr ⟨q,hq,fun hin =>
      Bool.noConfusion (hw.symm.trans (within_of_insideRoots hroots (resolve_valid hq) hin))⟩

end Places

section Report

variable {raw : Bytes} {field : Text}

theorem stat_of_read (hread : h.tree.read composePath = some raw) :
    h.stat composePath = some raw.length := by
  cases hq : h.tree.walk FileTree.osLinkLimit [] (segments composePath) with
  | error e => simp [FileTree.read,hq] at hread
  | ok q =>
      simp only [FileTree.read,hq] at hread
      simp only [Host.stat,hq]
      split at hread
      · rename_i data hnode
        cases hread
        simp [hnode]
      · cases hread

theorem checkComposeRefs_ok (hroots : roots ≠ [])
    (hread : h.tree.read composePath = some raw) (hsize : raw.length ≤ maxComposeBytes)
    (hdoc : h.unmarshal raw = some doc) :
    checkComposeRefs h composePath roots = .ok ((composeRefs doc).filter fun r =>
      r.value ≠ [] && looksLikeHostPath r.value &&
        resolvedOutsideBase h r.value (dir composePath) roots) := by
  rw [checkComposeRefs,if_neg hroots]
  simp only [stat_of_read hread,if_neg (Nat.not_lt.mpr hsize),hread,hdoc]

theorem outside_references_reported (hroots : roots ≠ [])
    (hread : h.tree.read composePath = some raw) (hsize : raw.length ≤ maxComposeBytes)
    (hdoc : h.unmarshal raw = some doc) :
    ∃ refs, checkComposeRefs h composePath roots = .ok refs ∧
      (∀ field v, Names doc field v → looksLikeHostPath v = true →
        hasPrefix v ['~'] = true ∨ Escapes h roots (dir composePath) v → ⟨field,v⟩ ∈ refs) ∧
      (NoSlashRoot roots → ∀ r ∈ refs,
        hasPrefix r.value ['~'] = true ∨ Escapes h roots (dir composePath) r.value) := by
  refine ⟨_,checkComposeRefs_ok hroots hread hsize hdoc,?_,?_⟩
  · intro field v hnamed hpath hout
    have hne : v ≠ [] := fun he => by rw [he] at hpath; cases hpath
    have hreported : resolvedOutsideBase h v (dir composePath) roots = true := by
      rcases hout with hhome | he
      · exact if_pos hhome
      · exact he.reported
    exact List.mem_filter.mpr ⟨hnamed.mem_composeRefs hpath,by simp [hne,hpath,hreported]⟩
  · intro hslash r hr
    obtain ⟨-,hkept⟩ := List.mem_filter.mp hr
    obtain ⟨-,hreported⟩ := Bool.and_eq_true_iff.mp hkept
    cases hhome : hasPrefix r.value ['~'] with
    | true => exact .inl rfl
    | false => exact .inr (escapes_of_reported hslash hhome hreported)

def composeTree : FileTree Bytes where
  nodes := [([['s']],.dir),([['s'],['c']],.file [0]),([['s'],['o']],.link ['/','e']),
    ([['s'],['~']],.dir),([['e']],.dir),([['e'],['l']],.link ['/','s'])]
  rooted := by decide

def scanned (doc : Yaml) : Host := { twoFiles with tree := composeTree,unmarshal _ := some doc }

def oneService (key : Text) (x : Yaml) : Yaml :=
  .map [("services".toList,.map [(['w'],.map [(key,x)])])]

theorem oneService_service (key : Text) (x : Yaml) :
    Service (oneService key x) ['w'] (.map [(key,x)]) :=
  ⟨rfl,List.mem_singleton.mpr rfl⟩

def mounting : Yaml := oneService "volumes".toList (.list [.text ['/','e',':','/','x']])

theorem mounting_names :
    Names mounting (numbered (member ['w'] "volumes".toList) 0) ['/','e'] := by
  have hcolon : ':' ∉ ['/','e'] := by decide
  exact .volume (oneService_service _ _) (.item rfl) (.short hcolon)

theorem etc_outside : ¬InsideRoots [['/','s']] [['e']] := by
  rintro ⟨r,hr,-,hpre⟩
  obtain rfl := List.mem_singleton.mp hr
  exact absurd hpre (by decide)

theorem outside_mount_escapes :
    Escapes (scanned mounting) [['/','s']] (dir ['/','s','/','c']) ['/','e'] :=
  .inl fun hin => etc_outside hin.2

theorem outside_mount_reported :
    ∃ refs, checkComposeRefs (scanned mounting) ['/','s','/','c'] [['/','s']] = .ok refs ∧
      ⟨numbered (member ['w'] "volumes".toList) 0,['/','e']⟩ ∈ refs ∧
      ∀ r ∈ refs, hasPrefix r.value ['~'] = true ∨
        Escapes (scanned mounting) [['/','s']] (dir ['/','s','/','c']) r.value := by
  have hread : (scanned mounting).tree.read ['/','s','/','c'] = some [0] := rfl
  have hslash : NoSlashRoot [['/','s']] := by
    intro r hr
    obtain rfl := List.mem_singleton.mp hr
    decide
  obtain ⟨refs,hrefs,hall,honly⟩ :=
    outside_references_reported (List.cons_ne_nil _ _) hread (by decide) rfl
  exact ⟨refs,hrefs,hall _ _ mounting_names rfl (.inr outside_mount_escapes),honly hslash⟩

-- a build given as one string, and a list of paths under one include
inductive Shorthand (doc : Yaml) : Text → Prop
  | build {name v : Text} {svc : Yaml} (hsvc : Service doc name svc)
      (hbuild : svc.field "build".toList = some (.text v)) : Shorthand doc v
  | paths {i : Nat} {e : Yaml} {items : List Yaml} {v : Text}
      (hlist : Listed (doc.field "include".toList) i e)
      (hpath : e.field "path".toList = some (.list items)) (hv : .text v ∈ items) : Shorthand doc v

def EveryOutside (forms : Yaml → Text → Prop) : Prop :=
  ∀ (h : Host) (roots : List Text) (composePath : Text) (raw : Bytes) (doc : Yaml)
    (refs : List OutsideRef), roots ≠ [] → h.tree.read composePath = some raw →
    h.unmarshal raw = some doc → checkComposeRefs h composePath roots = .ok refs →
    ∀ v q, forms doc v → '$' ∉ v → contains v "://".toList = false →
      h.tree.resolve (clean (target (dir composePath) v)) = .ok q → ¬InsideRoots roots q →
      ∃ field, ⟨field,v⟩ ∈ refs

def OnlyOutside (values : List Text → Text → Prop) : Prop :=
  ∀ (h : Host) (roots : List Text) (composePath : Text) (raw : Bytes) (doc : Yaml)
    (refs : List OutsideRef), roots ≠ [] → h.tree.read composePath = some raw →
    h.unmarshal raw = some doc → checkComposeRefs h composePath roots = .ok refs →
    ∀ r ∈ refs, values roots r.value →
      ∀ q, h.tree.resolve (clean (target (dir composePath) r.value)) = .ok q → ¬InsideRoots roots q

theorem plain_name_unreported : ¬EveryOutside fun doc v => ∃ field, Names doc field v := by
  intro hall
  have hread : (scanned (oneService "env_file".toList (.text ['o']))).tree.read ['/','s','/','c'] =
      some [0] := rfl
  have hnames : Names (oneService "env_file".toList (.text ['o']))
      (numbered (member ['w'] "env_file".toList) 0) ['o'] :=
    .envFile (oneService_service _ _) (.single _) (.text _)
  obtain ⟨field,hmem⟩ := hall _ [['/','s']] _ _ _ [] (List.cons_ne_nil _ _) hread rfl rfl ['o'] [['e']]
    ⟨_,hnames⟩ (by decide) (by decide) rfl etc_outside
  cases hmem

theorem shorthand_unreported : ¬EveryOutside Shorthand := by
  intro hall
  have hread : (scanned (oneService "build".toList (.text ['/','e']))).tree.read ['/','s','/','c'] =
      some [0] := rfl
  have hnames : Shorthand (oneService "build".toList (.text ['/','e'])) ['/','e'] :=
    .build (oneService_service _ _) rfl
  obtain ⟨field,hmem⟩ := hall _ [['/','s']] _ _ _ [] (List.cons_ne_nil _ _) hread rfl rfl _ [['e']]
    hnames (by decide) (by decide) rfl etc_outside
  cases hmem

def onlyRef (v : Text) : OutsideRef := ⟨numbered "include".toList 0,v⟩

def including (v : Text) : Yaml := .map [("include".toList,.text v)]

theorem inside_reported (roots : List Text) (v : Text) (values : List Text → Text → Prop) (q : Place)
    (hroots : roots ≠ []) (hvalue : values roots v)
    (hscan : checkComposeRefs (scanned (including v)) ['/','s','/','c'] roots = .ok [onlyRef v])
    (hq : composeTree.resolve (clean (target (dir ['/','s','/','c']) v)) = .ok q)
    (hin : InsideRoots roots q) : ¬OnlyOutside values := by
  intro hall
  have hread : (scanned (including v)).tree.read ['/','s','/','c'] = some [0] := rfl
  exact hall _ _ _ _ _ _ hroots hread rfl hscan (onlyRef v) (List.mem_singleton.mpr rfl) hvalue q hq hin

theorem report_refuted :
    ¬EveryOutside (fun doc v => ∃ field, Names doc field v) ∧ ¬EveryOutside Shorthand ∧
      ¬OnlyOutside (fun _ v => hasPrefix v ['~'] = true) ∧
      ¬OnlyOutside (fun roots v => NoSlashRoot roots ∧ isAbs v = true) ∧
      ¬OnlyOutside (fun roots _ => roots = [['/']]) := by
  have hs : InsideRoots [['/','s']] [['s']] :=
    ⟨_,List.mem_singleton.mpr rfl,rfl,by decide⟩
  refine ⟨plain_name_unreported,shorthand_unreported,?_,?_,?_⟩
  · have hhome : InsideRoots [['/','s']] [['s'],['~']] :=
      ⟨_,List.mem_singleton.mpr rfl,rfl,by decide⟩
    exact inside_reported [['/','s']] ['~'] _ _ (List.cons_ne_nil _ _) rfl rfl rfl hhome
  · have hslash : NoSlashRoot [['/','s']] := by
      intro r hr
      obtain rfl := List.mem_singleton.mp hr
      decide
    exact inside_reported [['/','s']] ['/','e','/','l'] _ _ (List.cons_ne_nil _ _) ⟨hslash,rfl⟩ rfl rfl hs
  · have hroot : InsideRoots [['/']] [['e']] :=
      ⟨_,List.mem_singleton.mpr rfl,rfl,by decide⟩
    exact inside_reported [['/']] ['/','e'] _ _ (List.cons_ne_nil _ _) rfl rfl rfl hroot

end Report

end Deploy
