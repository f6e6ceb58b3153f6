import Riftgate.Code.Proxy
import Riftgate.Lib.Text

/-!
# Where an upstream request goes

The URI is the text of the operator and then the text of the client. So the first character of the client decides
whether it extends the path or the host.
-/

open Lib

namespace Riftgate.Proxy

/-! ## The parts of an absolute URI -/

def endsPath (c : Char) : Bool := c = '?' || c = '#'

def endsAuthority (c : Char) : Bool := c = '/' || endsPath c

/-- The path of an absolute URI is never empty. -/
def pathText (l : List Char) : String := if l = [] then "/" else String.ofList l

def queryText (l : List Char) : Option String :=
  if l.head? = some '?' then some (String.ofList (l.tail.takeWhile fun c => c ≠ '#')) else none

/-- The parts of a URI that has `rest` after its two slashes. The authority goes to the first `/`, `?` or `#`, the path
from there to the first `?` or `#`, and the query to the first `#`. -/
structure Uri.Parts (u : Uri) (rest : List Char) : Prop where
  authority : u.authority = some (String.ofList (rest.takeWhile fun c => !endsAuthority c))
  path : u.path = pathText ((rest.dropWhile fun c => !endsAuthority c).takeWhile fun c => !endsPath c)
  query : u.query = queryText ((rest.dropWhile fun c => !endsAuthority c).dropWhile fun c => !endsPath c)

/-- What `http` documents of its parser: an absolute URI that it accepts has these parts. -/
def ReadsAbsolute (parseUri : String → Except String Uri) : Prop :=
  ∀ {text : String} {scheme rest : List Char} {u : Uri}, text.toList = scheme ++ ':' :: '/' :: '/' :: rest →
    '/' ∉ scheme → parseUri text = .ok u → u.Parts rest

/-- A parser that takes every absolute URI. -/
def readAbsolute (text : String) : Except String Uri :=
  match splitOnce ':' text.toList with
  | none => .error "invalid format"
  | some (scheme, rest) =>
    if rest.take 2 = ['/', '/'] then
      let rest := rest.drop 2
      let after := rest.dropWhile fun c => !endsAuthority c
      .ok ⟨some (String.ofList scheme), some (String.ofList (rest.takeWhile fun c => !endsAuthority c)),
        pathText (after.takeWhile fun c => !endsPath c), queryText (after.dropWhile fun c => !endsPath c)⟩
    else .error "invalid format"

theorem readAbsolute_reads : ReadsAbsolute readAbsolute := by
  intro text scheme rest u htext hscheme h
  unfold readAbsolute at h
  by_cases hcolon : ':' ∈ scheme
  · -- The first colon is in the scheme, and no two slashes follow it.
    obtain ⟨a, b, rfl, ha⟩ := List.eq_append_cons_of_mem hcolon
    have hb : (b ++ ':' :: '/' :: '/' :: rest).take 2 ≠ ['/', '/'] := by
      cases b with
      | nil => simp
      | cons c b =>
        intro htake
        rw [List.cons_append, List.take_succ_cons, List.cons.injEq] at htake
        exact hscheme (by simp [htake.1])
    rw [htext, List.append_assoc, List.cons_append, splitOnce_append ha] at h
    simp only [hb, if_false] at h
    cases h
  · rw [htext, splitOnce_append hcolon] at h
    cases h
    exact ⟨rfl, rfl, rfl⟩

/-! ## What is put together -/

/-- A backend url `scheme://authority[/base]`. The base begins with its slash. -/
structure BackendUrl where
  scheme : List Char
  authority : List Char
  base : List Char
  scheme_plain : '/' ∉ scheme
  authority_ne : authority ≠ []
  authority_plain : ∀ c ∈ authority, endsAuthority c = false
  base_slash : ∀ c ∈ base.head?, c = '/'
  base_plain : ∀ c ∈ base, endsPath c = false

def BackendUrl.text (url : BackendUrl) : String :=
  String.ofList (url.scheme ++ ':' :: '/' :: '/' :: (url.authority ++ url.base))

/-- The base without its trailing slashes. -/
def BackendUrl.trimmedBase (url : BackendUrl) : List Char := url.base.rdropWhile (· = '/')

/-- The path and the query of a request, as `hyper` has them: a path from its slash on, an asterisk, or nothing. -/
structure InboundTarget where
  path : String
  query : Option String
  path_form : path = "" ∨ path = "*" ∨ path.toList.head? = some '/'
  path_plain : ∀ c ∈ path.toList, endsPath c = false
  query_plain : ∀ q ∈ query, '#' ∉ q.toList

/-- What follows the authority in the URI. -/
def InboundTarget.after (target : InboundTarget) (url : BackendUrl) : List Char :=
  url.trimmedBase ++ target.path.toList ++ match target.query with
    | some q => '?' :: q.toList
    | none => []

theorem trimSlashes_text (url : BackendUrl) : (trimSlashes url.text).toList =
    url.scheme ++ ':' :: '/' :: '/' :: (url.authority ++ url.trimmedBase) := by
  have hlast : (url.scheme ++ ':' :: '/' :: '/' :: url.authority).getLast? =
      some (url.authority.getLast url.authority_ne) := by
    have happend : url.scheme ++ ':' :: '/' :: '/' :: url.authority =
        (url.scheme ++ [':', '/', '/']) ++ url.authority := by simp
    rw [happend, List.getLast?_append_of_ne_nil _ url.authority_ne, List.getLast?_eq_some_getLast]
  have hkept : decide (url.authority.getLast url.authority_ne = '/') = false := by
    rw [decide_eq_false_iff_not]
    intro hslash
    have hplain := url.authority_plain _ (List.getLast_mem url.authority_ne)
    rw [hslash] at hplain
    cases hplain
  have happend : url.scheme ++ ':' :: '/' :: '/' :: (url.authority ++ url.base) =
      (url.scheme ++ ':' :: '/' :: '/' :: url.authority) ++ url.base := by simp
  unfold trimSlashes BackendUrl.text
  rw [String.toList_ofList, String.toList_ofList, happend, rdropWhile_append hlast hkept]
  simp [BackendUrl.trimmedBase]

theorem buildUpstreamUri_parsed {parseUri : String → Except String Uri} {url : BackendUrl} {target : InboundTarget}
    {u : Uri} (h : buildUpstreamUri parseUri url.text target.path target.query = .ok u) :
    ∃ text, parseUri text = .ok u ∧
      text.toList = url.scheme ++ ':' :: '/' :: '/' :: (url.authority ++ target.after url) := by
  unfold buildUpstreamUri at h
  unfold InboundTarget.after
  simp only at h
  split at h
  · rename_i hparse
    cases h
    refine ⟨_, hparse, ?_⟩
    cases target.query with
    | none => simp [trimSlashes_text]
    | some q => simp [trimSlashes_text]
  · cases h

/-! ## What is read back -/

theorem trimmedBase_append (url : BackendUrl) : url.trimmedBase ++ url.base.rtakeWhile (· = '/') = url.base :=
  List.rdropWhile_append_rtakeWhile

theorem trimmedBase_head (url : BackendUrl) : ∀ c ∈ url.trimmedBase.head?, c = '/' := by
  intro c hc
  refine url.base_slash c ?_
  rw [← trimmedBase_append, List.head?_append, hc]
  rfl

theorem trimmedBase_plain (url : BackendUrl) : ∀ c ∈ url.trimmedBase, endsPath c = false := by
  intro c hc
  refine url.base_plain c ?_
  rw [← trimmedBase_append]
  exact List.mem_append_left _ hc

/-- What follows the authority ends it, but for an asterisk behind no base. -/
theorem after_head {url : BackendUrl} {target : InboundTarget} (h : ¬ (target.path = "*" ∧ url.trimmedBase = [])) :
    ∀ c ∈ (target.after url).head?, endsAuthority c = true := by
  intro c hc
  unfold InboundTarget.after at hc
  rw [List.append_assoc, List.head?_append] at hc
  cases hbase : url.trimmedBase.head? with
  | some d =>
    rw [hbase, Option.some_or, Option.mem_some_iff] at hc
    rw [← hc, trimmedBase_head url d hbase]
    rfl
  | none =>
    rw [List.head?_eq_none_iff] at hbase
    rw [hbase, List.head?_nil, Option.none_or, List.head?_append] at hc
    rcases target.path_form with hempty | hstar | hslash
    · rw [hempty] at hc
      cases hquery : target.query with
      | none => simp [hquery] at hc
      | some q =>
        simp [hquery] at hc
        subst hc
        rfl
    · exact absurd ⟨hstar, hbase⟩ h
    · rw [hslash, Option.some_or, Option.mem_some_iff] at hc
      subst hc
      rfl

theorem takeWhile_eq_nil_of_head {p : Char → Bool} {l : List Char} (h : ∀ c ∈ l.head?, p c = false) :
    l.takeWhile p = [] ∧ l.dropWhile p = l := by
  cases l with
  | nil => exact ⟨rfl, rfl⟩
  | cons c l =>
    have hc := h c rfl
    exact ⟨by simp [hc], by simp [hc]⟩

theorem after_parts (url : BackendUrl) (target : InboundTarget) :
    (target.after url).takeWhile (fun c => !endsPath c) = url.trimmedBase ++ target.path.toList ∧
      queryText ((target.after url).dropWhile fun c => !endsPath c) = target.query := by
  have hplain : ∀ c ∈ url.trimmedBase ++ target.path.toList, (!endsPath c) = true := by
    intro c hc
    rcases List.mem_append.mp hc with hc | hc
    · simp [trimmedBase_plain url c hc]
    · simp [target.path_plain c hc]
  unfold InboundTarget.after
  rw [List.takeWhile_append_of_pos hplain, List.dropWhile_append_of_pos hplain]
  cases hquery : target.query with
  | none => simp [queryText]
  | some q =>
    have hkept : ∀ c ∈ q.toList, (!decide (c = '#')) = true := by
      intro c hc
      rw [Bool.not_eq_true', decide_eq_false_iff_not]
      rintro rfl
      exact target.query_plain q hquery hc
    have hmark : endsPath '?' = true := rfl
    simp [queryText, hmark, List.takeWhile_eq_self_iff.mpr hkept]

/-- The URI has the authority of the backend, its base followed by the path of the client, and the query of the
client. -/
structure Confined (url : BackendUrl) (target : InboundTarget) (u : Uri) : Prop where
  authority : u.authority = some (String.ofList url.authority)
  path : u.path = String.ofList url.trimmedBase ++ target.path
  query : u.query = target.query

theorem pathText_eq_iff (base : List Char) (path : String) :
    pathText (base ++ path.toList) = String.ofList base ++ path ↔ ¬ (base = [] ∧ path = "") := by
  have hlist : String.ofList base ++ path = String.ofList (base ++ path.toList) := by
    rw [← String.toList_inj]
    simp
  have hempty : base ++ path.toList = [] ↔ base = [] ∧ path = "" := by
    rw [List.append_eq_nil_iff, String.toList_eq_nil_iff]
  unfold pathText
  rw [hlist, ← hempty]
  split
  · rename_i hnil
    simp [hnil]
  · rename_i hne
    simp [hne]

/-- **Confinement, exactly.** The URI that is returned is confined if and only if the backend has a base, or the path
of the client is neither `*` nor empty. -/
theorem buildUpstreamUri_confined_iff {parseUri : String → Except String Uri} (hreads : ReadsAbsolute parseUri)
    (url : BackendUrl) (target : InboundTarget) {u : Uri}
    (h : buildUpstreamUri parseUri url.text target.path target.query = .ok u) :
    Confined url target u ↔ ¬ (url.trimmedBase = [] ∧ (target.path = "*" ∨ target.path = "")) := by
  obtain ⟨text, hparse, htext⟩ := buildUpstreamUri_parsed h
  obtain ⟨hauthority, hpath, hquery⟩ := hreads htext url.scheme_plain hparse
  have hkept : ∀ c ∈ url.authority, (!endsAuthority c) = true := by
    intro c hc
    simp [url.authority_plain c hc]
  rw [List.takeWhile_append_of_pos hkept] at hauthority
  rw [List.dropWhile_append_of_pos hkept] at hpath hquery
  by_cases hstar : target.path = "*" ∧ url.trimmedBase = []
  · -- The asterisk is read as a part of the host.
    refine iff_of_false ?_ (fun hnone => hnone ⟨hstar.2, .inl hstar.1⟩)
    rintro ⟨hconfined, -, -⟩
    rw [hauthority, Option.some.injEq, ← String.toList_inj, String.toList_ofList, String.toList_ofList,
      List.append_right_eq_self] at hconfined
    simp [InboundTarget.after, hstar.1, hstar.2, endsAuthority, endsPath] at hconfined
  · obtain ⟨htake, hdrop⟩ := takeWhile_eq_nil_of_head (p := fun c => !endsAuthority c) (l := target.after url)
      (fun c hc => by simp [after_head hstar c hc])
    obtain ⟨hpathText, hqueryText⟩ := after_parts url target
    rw [htake, List.append_nil] at hauthority
    rw [hdrop, hpathText] at hpath
    rw [hdrop, hqueryText] at hquery
    have hcondition : ¬ (url.trimmedBase = [] ∧ (target.path = "*" ∨ target.path = "")) ↔
        ¬ (url.trimmedBase = [] ∧ target.path = "") := by tauto
    rw [hcondition, ← pathText_eq_iff, ← hpath]
    exact ⟨fun hconfined => hconfined.path, fun hsame => ⟨hauthority, hsame, hquery⟩⟩

/-! ## Three targets -/

theorem plain_of_all {p : Char → Bool} {l : List Char} (h : (l.all fun c => !p c) = true) : ∀ c ∈ l, p c = false := by
  intro c hc
  have hall := List.all_eq_true.mp h c hc
  simpa using hall

def apiBackend (base : String) (hslash : ∀ c ∈ base.toList.head?, c = '/')
    (hplain : (base.toList.all fun c => !endsPath c) = true) : BackendUrl where
  scheme := "http".toList
  authority := "api.example.com".toList
  base := base.toList
  scheme_plain := by decide
  authority_ne := by decide
  authority_plain := plain_of_all (by decide)
  base_slash := hslash
  base_plain := plain_of_all hplain

def modelsTarget : InboundTarget := ⟨"/v1/models", some "filter=gpt", by decide, plain_of_all (by decide), by simp⟩

/-- The target of `OPTIONS *`. -/
def asteriskTarget : InboundTarget := ⟨"*", none, by decide, plain_of_all (by decide), by simp⟩

/-- The target of `CONNECT`, which has an authority only. -/
def emptyTarget : InboundTarget := ⟨"", none, by decide, plain_of_all (by decide), by simp⟩

theorem models_confined :
    let url := apiBackend "/" (by simp) (by decide)
    let u : Uri := ⟨some "http", some "api.example.com", "/v1/models", some "filter=gpt"⟩
    ReadsAbsolute readAbsolute ∧
    buildUpstreamUri readAbsolute url.text modelsTarget.path modelsTarget.query = .ok u ∧
    (Confined url modelsTarget u ↔
      ¬ (url.trimmedBase = [] ∧ (modelsTarget.path = "*" ∨ modelsTarget.path = ""))) := by
  intro url u
  have h : buildUpstreamUri readAbsolute url.text modelsTarget.path modelsTarget.query = .ok u := by decide
  exact ⟨readAbsolute_reads, h, buildUpstreamUri_confined_iff readAbsolute_reads url modelsTarget h⟩

/-- The client has made the host another one. And with no path of its own it gets the root. -/
theorem asterisk_extends_host :
    let url := apiBackend "" (by simp) (by decide)
    (∃ u, buildUpstreamUri readAbsolute url.text asteriskTarget.path asteriskTarget.query = .ok u ∧
      u.authority = some "api.example.com*" ∧ ¬ Confined url asteriskTarget u) ∧
    ∃ u, buildUpstreamUri readAbsolute url.text emptyTarget.path emptyTarget.query = .ok u ∧
      u.path = "/" ∧ ¬ Confined url emptyTarget u := by
  intro url
  have hhost : buildUpstreamUri readAbsolute url.text asteriskTarget.path asteriskTarget.query =
      .ok ⟨some "http", some "api.example.com*", "/", none⟩ := by decide
  have hroot : buildUpstreamUri readAbsolute url.text emptyTarget.path emptyTarget.query =
      .ok ⟨some "http", some "api.example.com", "/", none⟩ := by decide
  refine ⟨⟨_, hhost, rfl, fun h => ?_⟩, _, hroot, rfl, fun h => ?_⟩
  · exact absurd h.authority (by decide)
  · exact absurd h.path (by decide)

end Riftgate.Proxy
