import Riftgate.Code.DcgmHttp
import Riftgate.Pressure
import Riftgate.Scrape

/-!
# Exchanges with the exporter

A poll reads a sample exactly when its endpoint is well formed, the exchange comes to its end, and the response is a 200
whose body reads. The framing of the body is not looked at: a body in chunks never reads.
-/

open Lib

namespace Riftgate.Dcgm

open Router

theorem bind_ok_iff {ε α β : Type} {x : Except ε α} {f : α → Except ε β} {b : β} :
    x >>= f = .ok b ↔ ∃ a, x = .ok a ∧ f a = .ok b := by
  cases x <;> simp [bind, Except.bind]

/-! ## Endpoints -/

/-- A host, with a port behind the last colon or without one. -/
def IsAuthority (authority host : List Char) (port : UInt16) : Prop :=
  (authority = host ∧ ':' ∉ host ∧ port = 80) ∨
    ∃ digits, authority = host ++ ':' :: digits ∧ parseUnsigned (2 ^ 16) digits = some port.toNat

def IsPath (tail path : List Char) : Prop := (tail = [] ∧ path = defaultPath) ∨ (tail = path ∧ path.head? = some '/')

/-- The text of an endpoint. -/
def IsEndpoint (text : List Char) (e : HttpEndpoint) : Prop :=
  e.host ≠ [] ∧ ∃ authority tail, text = "http://".toList ++ (authority ++ tail) ∧ '/' ∉ authority ∧
    IsAuthority authority e.host e.port ∧ IsPath tail e.path

theorem splitAuthority_iff {text authority path : List Char} :
    splitAuthority text = (authority, path) ↔
      '/' ∉ authority ∧ ∃ tail, text = authority ++ tail ∧ IsPath tail path := by
  unfold splitAuthority
  cases hsplit : splitOnce '/' text with
  | some p =>
    obtain ⟨a, b⟩ := p
    obtain ⟨htext, ha⟩ := splitOnce_iff.mp hsplit
    rw [Prod.mk.injEq]
    constructor
    · rintro ⟨rfl, rfl⟩
      exact ⟨ha, _, htext, Or.inr ⟨rfl, rfl⟩⟩
    · rintro ⟨hauthority, tail, heq, ⟨rfl, -⟩ | ⟨rfl, hhead⟩⟩
      · rw [List.append_nil] at heq
        rw [htext] at heq
        exact absurd (heq ▸ List.mem_append_right _ List.mem_cons_self) hauthority
      · obtain ⟨rest, rfl⟩ := List.head?_eq_some_iff.mp hhead
        rw [heq, splitOnce_append hauthority, Option.some.injEq, Prod.mk.injEq] at hsplit
        exact ⟨hsplit.1.symm, by rw [hsplit.2]⟩
  | none =>
    rw [splitOnce_none_iff] at hsplit
    rw [Prod.mk.injEq]
    constructor
    · rintro ⟨rfl, rfl⟩
      exact ⟨hsplit, [], (List.append_nil _).symm, Or.inl ⟨rfl, rfl⟩⟩
    · rintro ⟨-, tail, rfl, ⟨rfl, rfl⟩ | ⟨rfl, hhead⟩⟩
      · exact ⟨List.append_nil _, rfl⟩
      · exact absurd (List.mem_append_right _ (List.mem_of_head? hhead)) hsplit

theorem splitPort_iff {input authority host : List Char} {port : UInt16} :
    splitPort input authority = .ok (host, port) ↔ IsAuthority authority host port := by
  unfold splitPort IsAuthority
  cases hsplit : splitLast ':' authority with
  | none =>
    rw [splitLast_none_iff] at hsplit
    simp only [Except.ok.injEq, Prod.mk.injEq]
    constructor
    · rintro ⟨rfl, rfl⟩
      exact Or.inl ⟨rfl, hsplit, rfl⟩
    · rintro (⟨rfl, -, rfl⟩ | ⟨digits, rfl, -⟩)
      · exact ⟨rfl, rfl⟩
      · simp at hsplit
  | some p =>
    obtain ⟨h, digits⟩ := p
    obtain ⟨rfl, hdigits⟩ := splitLast_iff.mp hsplit
    have hunique : ∀ digits', h ++ ':' :: digits = host ++ ':' :: digits' →
        parseUnsigned (2 ^ 16) digits' = some port.toNat → h = host ∧ digits = digits' := by
      intro digits' heq hparse
      have hsep : ':' ∉ digits' := by
        intro hmem
        rw [parseUnsigned_eq_none hmem (by decide) (by decide)] at hparse
        cases hparse
      have hsplit' := splitLast_iff.mpr ⟨heq, hsep⟩
      rw [hsplit, Option.some.injEq, Prod.mk.injEq] at hsplit'
      exact hsplit'
    dsimp only
    cases hparse : parseUnsigned (2 ^ 16) digits with
    | none =>
      refine iff_of_false (by simp) ?_
      rintro (⟨rfl, hcolon, -⟩ | ⟨digits', heq, hport⟩)
      · simp at hcolon
      · obtain ⟨-, rfl⟩ := hunique digits' heq hport
        rw [hparse] at hport
        cases hport
    | some n =>
      simp only [Except.ok.injEq, Prod.mk.injEq]
      have hlt : n < 2 ^ 16 := parseUnsigned_lt hparse
      constructor
      · rintro ⟨rfl, rfl⟩
        refine Or.inr ⟨digits, rfl, ?_⟩
        rw [hparse, UInt16.toNat_ofNat_of_lt' hlt]
      · rintro (⟨rfl, hcolon, -⟩ | ⟨digits', heq, hport⟩)
        · simp at hcolon
        · obtain ⟨rfl, rfl⟩ := hunique digits' heq hport
          rw [hparse, Option.some.injEq] at hport
          rw [hport]
          exact ⟨rfl, UInt16.ofNat_toNat⟩

theorem HttpEndpoint.parse_iff {input : List Char} {e : HttpEndpoint} :
    HttpEndpoint.parse input = .ok e ↔ IsEndpoint input e := by
  unfold HttpEndpoint.parse IsEndpoint
  cases hscheme : stripStart "http://".toList input with
  | none =>
    refine iff_of_false (by simp) ?_
    rintro ⟨-, authority, tail, rfl, -⟩
    rw [stripStart_append] at hscheme
    cases hscheme
  | some text =>
    rw [stripStart_iff] at hscheme
    subst hscheme
    obtain ⟨⟨authority, path⟩, hsplit⟩ : ∃ p, splitAuthority text = p := ⟨_, rfl⟩
    obtain ⟨hslash, tail, htext, hpath⟩ := splitAuthority_iff.mp hsplit
    have hcut : ∀ authority' tail', "http://".toList ++ text = "http://".toList ++ (authority' ++ tail') →
        '/' ∉ authority' → IsPath tail' e.path → authority' = authority ∧ e.path = path := by
      intro authority' tail' heq hslash' hpath'
      have hsplit' := splitAuthority_iff.mpr ⟨hslash', tail', List.append_cancel_left heq, hpath'⟩
      rw [hsplit, Prod.mk.injEq] at hsplit'
      exact ⟨hsplit'.1.symm, hsplit'.2.symm⟩
    simp only [hsplit]
    split
    · rename_i hauthority
      refine iff_of_false (by simp) ?_
      rintro ⟨hhost, authority', tail', heq, hslash', hport, hpath'⟩
      obtain ⟨rfl, -⟩ := hcut authority' tail' heq hslash' hpath'
      rcases hport with ⟨h, -⟩ | ⟨digits, h, -⟩
      · exact hhost (h ▸ hauthority)
      · rw [hauthority] at h
        simp at h
    · rw [bind_ok_iff]
      constructor
      · rintro ⟨⟨host, port⟩, hport, hok⟩
        dsimp only at hok
        split at hok
        · cases hok
        · rename_i hhost
          cases hok
          exact ⟨hhost, authority, tail, by rw [htext], hslash, splitPort_iff.mp hport, hpath⟩
      · rintro ⟨hhost, authority', tail', heq, hslash', hport, hpath'⟩
        obtain ⟨rfl, rfl⟩ := hcut authority' tail' heq hslash' hpath'
        refine ⟨(e.host, e.port), splitPort_iff.mpr hport, ?_⟩
        dsimp only
        rw [if_neg hhost]

/-! ## A poll -/

/-- The exchange with the endpoint comes to its end, with this response. -/
def Network.Answers (net : Network) (e : HttpEndpoint) (timeout : Nat) (response : List Char) : Prop :=
  ∃ address rest stream sent, net.toSocketAddrs e.host e.port = .ok (address :: rest) ∧
    net.connectTimeout address timeout = .ok stream ∧ net.setReadTimeout stream timeout = .ok () ∧
    net.setWriteTimeout stream timeout = .ok () ∧ net.writeAll stream e.request = .ok sent ∧
    net.readToString sent = .ok response

theorem scrapeFailed_iff {α : Type} {x : Except String α} {a : α} : scrapeFailed x = .ok a ↔ x = .ok a := by
  unfold scrapeFailed
  cases x <;> simp

theorem resolveSocketAddr_iff {net : Network} {host : List Char} {port : UInt16} {address : net.Addr} :
    resolveSocketAddr net host port = .ok address ↔ ∃ rest, net.toSocketAddrs host port = .ok (address :: rest) := by
  unfold resolveSocketAddr
  simp only [bind_ok_iff, scrapeFailed_iff]
  constructor
  · rintro ⟨addrs, hresolve, hfirst⟩
    cases addrs with
    | nil => cases hfirst
    | cons a rest =>
      cases hfirst
      exact ⟨rest, hresolve⟩
  · rintro ⟨rest, hresolve⟩
    exact ⟨_, hresolve, rfl⟩

theorem scrapeMetrics_iff {source : HttpScrapeSource} {net : Network} {body : List Char} :
    source.scrapeMetrics net = .ok body ↔
      ∃ e response, IsEndpoint source.endpoint e ∧ net.Answers e source.timeout response ∧
        parseHttpResponseBody response = .ok body := by
  unfold HttpScrapeSource.scrapeMetrics Network.Answers
  simp only [bind_ok_iff, scrapeFailed_iff, resolveSocketAddr_iff, HttpEndpoint.parse_iff]
  constructor
  · rintro ⟨e, he, address, ⟨rest, hresolve⟩, stream, hconnect, ⟨⟩, hread, ⟨⟩, hwrite, sent, hsend, response,
      hresponse, hbody⟩
    exact ⟨e, response, he, ⟨address, rest, stream, sent, hresolve, hconnect, hread, hwrite, hsend, hresponse⟩, hbody⟩
  · rintro ⟨e, response, he, ⟨address, rest, stream, sent, hresolve, hconnect, hread, hwrite, hsend, hresponse⟩,
      hbody⟩
    exact ⟨e, he, address, ⟨rest, hresolve⟩, stream, hconnect, (), hread, (), hwrite, sent, hsend, response, hresponse,
      hbody⟩

/-- Where the head of a response ends. The first blank line with carriage returns counts, wherever it stands, and
otherwise the first one without. -/
def IsCut (response head body : List Char) : Prop :=
  IsFirstCut (crlf ++ crlf) response head body ∨
    ((∀ x y, response ≠ x ++ (crlf ++ crlf ++ y)) ∧ IsFirstCut ['\n', '\n'] response head body)

def statusLine (head : List Char) : List Char := (lines head).head?.getD []

theorem parseHttpResponseBody_eq (response : List Char) :
    parseHttpResponseBody response =
      match (splitText (crlf ++ crlf) response).or (splitText ['\n', '\n'] response) with
      | none => .error (.scrapeFailed "malformed HTTP response")
      | some (head, body) =>
        if isOkStatus (statusLine head) then .ok body
        else .error (.scrapeFailed ("unexpected scrape status: " ++ String.ofList (statusLine head))) := rfl

theorem cut_iff {response head body : List Char} :
    (splitText (crlf ++ crlf) response).or (splitText ['\n', '\n'] response) = some (head, body) ↔
      IsCut response head body := by
  rw [Option.or_eq_some_iff, splitText_iff, splitText_iff, splitText_none_iff]
  rfl

theorem parseHttpResponseBody_iff {response body : List Char} :
    parseHttpResponseBody response = .ok body ↔
      ∃ head, IsCut response head body ∧ isOkStatus (statusLine head) = true := by
  rw [parseHttpResponseBody_eq]
  cases hcut : (splitText (crlf ++ crlf) response).or (splitText ['\n', '\n'] response) with
  | none =>
    refine iff_of_false (by simp) ?_
    rintro ⟨head, h, -⟩
    rw [← cut_iff, hcut] at h
    cases h
  | some p =>
    obtain ⟨head, body'⟩ := p
    dsimp only
    constructor
    · intro h
      split at h
      · rename_i hok
        cases h
        exact ⟨head, cut_iff.mp hcut, hok⟩
      · cases h
    · rintro ⟨head', h, hok⟩
      rw [← cut_iff, hcut, Option.some.injEq, Prod.mk.injEq] at h
      obtain ⟨rfl, rfl⟩ := h
      rw [if_pos hok]

variable {F : Type} [Float64 F]

theorem mapError_ok_iff {ε ε' α : Type} {f : ε → ε'} {x : Except ε α} {a : α} : x.mapError f = .ok a ↔ x = .ok a := by
  cases x <;> simp [Except.mapError]

/-- **What a poll reads.** It gives a sample exactly when its endpoint is one, the exchange comes to its end, and the
response has a head of status 200 and a body that reads as that sample. -/
theorem pollOnce_ok_iff {source : HttpScrapeSource} {net : Network} {samples : List (GpuPressure F)} :
    source.pollOnce net = .ok samples ↔
      ∃ e response head body sample, IsEndpoint source.endpoint e ∧ net.Answers e source.timeout response ∧
        IsCut response head body ∧ isOkStatus (statusLine head) = true ∧
        source.parseMetrics body = .ok sample ∧ samples = [sample] := by
  unfold HttpScrapeSource.pollOnce
  simp only [bind_ok_iff, mapError_ok_iff, scrapeMetrics_iff, parseHttpResponseBody_iff]
  constructor
  · rintro ⟨body, ⟨e, response, he, hanswers, head, hcut, hstatus⟩, sample, hread, hsamples⟩
    cases hsamples
    exact ⟨e, response, head, body, sample, he, hanswers, hcut, hstatus, hread, rfl⟩
  · rintro ⟨e, response, head, body, sample, he, hanswers, hcut, hstatus, hread, rfl⟩
    exact ⟨body, ⟨e, response, he, hanswers, head, hcut, hstatus⟩, sample, hread, rfl⟩

/-! ## What an exporter sends -/

/-- A chunk as it is sent, with its size line. -/
structure Chunk where
  size : List Char
  data : List Char
  size_ne : size ≠ []
  size_hex : ∀ c ∈ size, c.isHexDigit = true

/-- A body up to the end of the connection, or one in chunks. -/
inductive Payload where
  | plain (body : List Char)
  | chunked (chunks : List Chunk)

def chunkedText : List Chunk → List Char
  | [] => '0' :: (crlf ++ crlf)
  | chunk :: chunks => chunk.size ++ (crlf ++ (chunk.data ++ (crlf ++ chunkedText chunks)))

def Payload.text : Payload → List Char
  | .plain body => body
  | .chunked chunks => chunkedText chunks

def IsLine (l : List Char) : Prop := '\r' ∉ l ∧ '\n' ∉ l

/-- A response of HTTP/1. Its headers are lines, as nothing looks into them. -/
structure Response where
  version : List Char
  code : List Char
  reason : List Char
  headers : List (List Char)
  payload : Payload
  version_http1 : version = "HTTP/1.1".toList ∨ version = "HTTP/1.0".toList
  code_length : code.length = 3
  code_digits : ∀ c ∈ code, c.isDigit = true
  reason_line : IsLine reason
  headers_lines : ∀ h ∈ headers, h ≠ [] ∧ IsLine h

namespace Response

variable (r : Response)

def statusText : List Char := r.version ++ ' ' :: (r.code ++ ' ' :: r.reason)

def headerText (headers : List (List Char)) : List Char := headers.flatMap fun h => crlf ++ h

def head : List Char := r.statusText ++ headerText r.headers

def text : List Char := r.head ++ (crlf ++ crlf ++ r.payload.text)

theorem isLine_digits {l : List Char} (h : ∀ c ∈ l, c.isDigit = true) : IsLine l := by
  constructor
  · intro hmem
    exact absurd (h _ hmem) (by decide)
  · intro hmem
    exact absurd (h _ hmem) (by decide)

theorem isLine_append {l l' : List Char} (h : IsLine l) (h' : IsLine l') : IsLine (l ++ l') := by
  unfold IsLine at *
  simp [h.1, h.2, h'.1, h'.2]

theorem statusText_isLine : IsLine r.statusText := by
  have hblank : IsLine [' '] := by
    unfold IsLine
    decide
  have hversion : IsLine r.version := by
    unfold IsLine
    rcases r.version_http1 with h | h <;> rw [h] <;> decide
  have hcode := isLine_append (isLine_digits r.code_digits) (isLine_append hblank r.reason_line)
  exact isLine_append hversion (isLine_append hblank hcode)

theorem statusText_ne : r.statusText ≠ [] := by
  unfold statusText
  simp

theorem splitText_line {line : List Char} (h : '\r' ∉ line) (rest : List Char) :
    splitText (crlf ++ crlf) (line ++ rest) = (splitText (crlf ++ crlf) rest).map fun p => (line ++ p.1, p.2) :=
  splitText_append h rest

theorem splitText_headerText {headers : List (List Char)} (h : ∀ l ∈ headers, l ≠ [] ∧ IsLine l)
    (rest : List Char) :
    splitText (crlf ++ crlf) (headerText headers ++ (crlf ++ crlf ++ rest)) = some (headerText headers, rest) := by
  induction headers with
  | nil =>
    unfold splitText
    rw [headerText, List.flatMap_nil, List.nil_append, stripStart_append]
  | cons l headers ih =>
    obtain ⟨⟨hne, hline⟩, htail⟩ := List.forall_mem_cons.mp h
    obtain ⟨c, l', rfl⟩ := List.exists_cons_of_ne_nil hne
    have hc : c ≠ '\r' := fun heq => hline.1 (heq ▸ List.mem_cons_self)
    have hheader : headerText ((c :: l') :: headers) ++ (crlf ++ crlf ++ rest) =
        '\r' :: '\n' :: (c :: l' ++ (headerText headers ++ (crlf ++ crlf ++ rest))) := by
      simp [headerText, crlf]
    have hcr : stripStart (crlf ++ crlf)
        ('\r' :: '\n' :: (c :: l' ++ (headerText headers ++ (crlf ++ crlf ++ rest)))) = none := by
      simp [stripStart, List.isPrefixOf?, crlf, Ne.symm hc]
    have hlf : stripStart (crlf ++ crlf)
        ('\n' :: (c :: l' ++ (headerText headers ++ (crlf ++ crlf ++ rest)))) = none := by
      simp [stripStart, List.isPrefixOf?, crlf]
    rw [hheader, splitText, hcr]
    dsimp only
    rw [splitText, hlf]
    dsimp only
    rw [splitText_line hline.1, ih htail]
    simp [headerText, crlf]

theorem splitText_text : splitText (crlf ++ crlf) r.text = some (r.head, r.payload.text) := by
  rw [text, head, List.append_assoc, splitText_line r.statusText_isLine.1, splitText_headerText r.headers_lines]
  rfl

theorem statusLine_head : statusLine r.head = r.statusText := by
  unfold statusLine head
  have hline := r.statusText_isLine
  cases r.headers with
  | nil =>
    rw [headerText, List.flatMap_nil, List.append_nil, lines, linesFrom_end hline.2 [] r.statusText_ne]
    rfl
  | cons h headers =>
    have hhead : r.statusText ++ headerText (h :: headers) =
        (r.statusText ++ ['\r']) ++ '\n' :: (h ++ headerText headers) := by
      simp [headerText, crlf]
    have hcr : '\n' ∉ r.statusText ++ ['\r'] := by
      simp [hline.2]
    rw [hhead, lines_line hcr]
    simp [stripCr]

theorem isOkStatus_iff : isOkStatus r.statusText = true ↔ r.code = "200".toList := by
  obtain ⟨a, b, c, hcode⟩ := List.length_eq_three.mp r.code_length
  unfold isOkStatus statusText
  have hcase : [a, b, c] = "200".toList ↔ '2' = a ∧ '0' = b ∧ '0' = c := by
    have h200 : "200".toList = ['2', '0', '0'] := by decide
    rw [h200, eq_comm]
    simp
  rw [hcode, hcase]
  rcases r.version_http1 with h | h <;> rw [h] <;> simp [List.isPrefixOf]

theorem body_eq : parseHttpResponseBody r.text =
    if r.code = "200".toList then .ok r.payload.text
    else .error (.scrapeFailed ("unexpected scrape status: " ++ String.ofList r.statusText)) := by
  rw [parseHttpResponseBody_eq, r.splitText_text]
  simp only [Option.some_or, statusLine_head, isOkStatus_iff]

end Response

/-! ## Chunks -/

theorem isNameChar_hexDigit {c : Char} (h : c.isHexDigit = true) : isNameChar c = true := by
  have hascii : c.toNat < 128 := by
    simp only [Char.isHexDigit, Char.isDigit, Bool.or_eq_true, Bool.and_eq_true, decide_eq_true_eq,
      UInt32.le_iff_toNat_le, ge_iff_le, Char.toNat_val] at h
    have hlast : '9'.toNat < 128 ∧ 'f'.toNat < 128 ∧ 'F'.toNat < 128 := by decide
    omega
  refine ascii_cases (p := fun c => c.isHexDigit = true → isNameChar c = true) ?_ hascii h
  decide

theorem parseLine_name (source : DcgmScrapeSource) {line : List Char} (hne : line ≠ [])
    (hname : ∀ c ∈ line, isNameChar c) (snapshot : DcgmSnapshot F) :
    source.parseLine snapshot line = .error (.parse ("missing metric separator in line: " ++ String.ofList line)) := by
  have htrim : trim line = line := by
    refine trim_eq_self (fun c hc => ?_) fun c hc => ?_
    · exact (isNameChar_plain (hname c (List.mem_of_head? hc))).1
    · exact (isNameChar_plain (hname c (List.mem_of_getLast? hc))).1
  have hskip : ¬ (line = [] ∨ line.head? = some '#') := by
    rintro (hnil | hhash)
    · exact hne hnil
    · exact notMem_name hname (by decide) (List.mem_of_head? hhash)
  have hscan : scanMetric 0 line = none := by
    refine scanMetric_eq_none (fun c hc => ?_) 0
    rintro (rfl | rfl)
    · exact notMem_name hname (by decide) hc
    · exact notMem_name hname (by decide) hc
  unfold DcgmScrapeSource.parseLine
  simp only [htrim, if_neg hskip, MetricSample.parse, splitMetricAndValue, hscan]
  rfl

theorem parseMetrics_name (source : DcgmScrapeSource) {line : List Char} (hne : line ≠ [])
    (hname : ∀ c ∈ line, isNameChar c) (rest : List Char) :
    source.parseMetrics (F := F) (line ++ (crlf ++ rest)) =
      .error (.parse ("missing metric separator in line: " ++ String.ofList line)) := by
  have hlf : '\n' ∉ line ++ ['\r'] := by
    have hline := notMem_name hname (c := '\n') (by decide)
    simp [hline]
  have htext : line ++ (crlf ++ rest) = (line ++ ['\r']) ++ '\n' :: rest := by
    simp [crlf]
  have hcr : stripCr (line ++ ['\r']) = line := by
    simp [stripCr]
  unfold DcgmScrapeSource.parseMetrics
  rw [htext, lines_line hlf, hcr, List.foldlM_cons, parseLine_name source hne hname]
  rfl

theorem chunkedText_start (chunks : List Chunk) :
    ∃ size rest, chunkedText chunks = size ++ (crlf ++ rest) ∧ size ≠ [] ∧ ∀ c ∈ size, isNameChar c = true := by
  cases chunks with
  | nil =>
    refine ⟨['0'], crlf, rfl, List.cons_ne_nil _ _, ?_⟩
    rw [List.forall_mem_singleton]
    decide
  | cons chunk chunks =>
    exact ⟨chunk.size, _, rfl, chunk.size_ne, fun c hc => isNameChar_hexDigit (chunk.size_hex c hc)⟩

theorem parseMetrics_chunked (source : DcgmScrapeSource) (chunks : List Chunk) (sample : GpuPressure F) :
    source.parseMetrics (chunkedText chunks) ≠ .ok sample := by
  obtain ⟨size, rest, htext, hne, hname⟩ := chunkedText_start chunks
  rw [htext, parseMetrics_name source hne hname]
  simp

/-- The sample in a response: that of a plain body with status 200. -/
def Response.sample (source : DcgmScrapeSource) (r : Response) : Option (GpuPressure F) :=
  match r.payload with
  | .plain body => if r.code = "200".toList then (source.parseMetrics body).toOption else none
  | .chunked _ => none

theorem backend_of_parseMetrics {source : DcgmScrapeSource} {body : List Char} {sample : GpuPressure F}
    (h : source.parseMetrics body = .ok sample) : sample.backend = source.backend := by
  unfold DcgmScrapeSource.parseMetrics at h
  obtain ⟨snapshot, -, h⟩ := bind_ok_iff.mp h
  unfold DcgmSnapshot.intoGpuPressure at h
  cases hutilization : snapshot.utilizationPct with
  | none =>
    rw [hutilization] at h
    cases h
  | some pct =>
    rw [hutilization] at h
    obtain ⟨pct', -, h⟩ := bind_ok_iff.mp h
    obtain ⟨memoryUsedPct, -, hsample⟩ := bind_ok_iff.mp h
    cases hsample
    rfl

/-! ## The poller -/

/-- What the source is answered: a response, or nothing where the exchange fails. -/
def Sends (source : HttpScrapeSource) (net : Network) : Option Response → Prop
  | some r => ∃ e, IsEndpoint source.endpoint e ∧ net.Answers e source.timeout r.text
  | none => ∀ e response, IsEndpoint source.endpoint e → ¬ net.Answers e source.timeout response

theorem scrapeMetrics_eq {source : HttpScrapeSource} {net : Network} {e : HttpEndpoint} {response : List Char}
    (he : IsEndpoint source.endpoint e) (hanswers : net.Answers e source.timeout response) :
    source.scrapeMetrics net = parseHttpResponseBody response := by
  obtain ⟨address, rest, stream, sent, hresolve, hconnect, hread, hwrite, hsend, hresponse⟩ := hanswers
  have haddress := resolveSocketAddr_iff.mpr ⟨rest, hresolve⟩
  unfold HttpScrapeSource.scrapeMetrics
  simp only [HttpEndpoint.parse_iff.mpr he, haddress, hconnect, hread, hwrite, hsend, hresponse, scrapeFailed, bind,
    Except.bind]

/-- The sample in an answer. -/
def sampleRead (source : DcgmScrapeSource) (answer : Option Response) : Option (GpuPressure F) :=
  answer.bind fun r => r.sample source

theorem sample_eq_some {source : DcgmScrapeSource} {r : Response} {sample : GpuPressure F} :
    r.sample source = some sample ↔
      r.code = "200".toList ∧ source.parseMetrics r.payload.text = .ok sample := by
  unfold Response.sample
  cases r.payload with
  | plain body =>
    dsimp only
    split
    · rename_i hcode
      simp only [hcode, true_and, Payload.text]
      cases source.parseMetrics (F := F) body <;> simp [Except.toOption]
    · rename_i hcode
      exact iff_of_false (by simp) fun h => hcode h.1
  | chunked chunks => simp [Payload.text, parseMetrics_chunked]

theorem pollOnce_sends {source : HttpScrapeSource} {net : Network} {answer : Option Response}
    (h : Sends source net answer) {samples : List (GpuPressure F)} :
    source.pollOnce net = .ok samples ↔
      ∃ sample, sampleRead source.toDcgmScrapeSource answer = some sample ∧ samples = [sample] := by
  cases answer with
  | none =>
    refine iff_of_false (fun hpoll => ?_) (by simp [sampleRead])
    obtain ⟨e, response, -, -, -, he, hanswers, -⟩ := pollOnce_ok_iff.mp hpoll
    exact h e response he hanswers
  | some r =>
    obtain ⟨e, he, hanswers⟩ := h
    unfold HttpScrapeSource.pollOnce
    rw [scrapeMetrics_eq he hanswers, r.body_eq]
    simp only [bind_ok_iff, mapError_ok_iff, sampleRead, Option.bind_some, sample_eq_some]
    constructor
    · rintro ⟨body, hbody, sample, hread, hsamples⟩
      cases hsamples
      split at hbody
      · rename_i hcode
        cases hbody
        exact ⟨sample, ⟨hcode, hread⟩, rfl⟩
      · cases hbody
    · rintro ⟨sample, ⟨hcode, hread⟩, rfl⟩
      exact ⟨r.payload.text, if_pos hcode, sample, hread, rfl⟩

end Riftgate.Dcgm

namespace Riftgate.Signals

open Dcgm Router

variable {F : Type} [Float64 F]

theorem get_poll (toBits : F → UInt32) {source : HttpScrapeSource} {net : Network} {answer : Option Response}
    (h : Sends source net answer) (store : BackendSignals) (b : BackendId) :
    (poll toBits store (source.pollOnce (F := F) net)).get b =
      withPressure toBits (store.get b)
        (if source.backend = b then sampleRead source.toDcgmScrapeSource answer else none) := by
  cases hpoll : source.pollOnce (F := F) net with
  | error e =>
    cases hsample : sampleRead (F := F) source.toDcgmScrapeSource answer with
    | none =>
      rw [ite_self]
      rfl
    | some sample =>
      rw [(pollOnce_sends h).mpr ⟨sample, hsample, rfl⟩] at hpoll
      cases hpoll
  | ok samples =>
    obtain ⟨sample, hsample, rfl⟩ := (pollOnce_sends h).mp hpoll
    have hbackend : sample.backend = source.backend := by
      obtain ⟨r, -, hr⟩ := Option.bind_eq_some_iff.mp hsample
      exact backend_of_parseMetrics (sample_eq_some.mp hr).2
    rw [poll, get_applyGpuPressureUpdates, hsample]
    unfold lastOf
    by_cases hb : source.backend = b <;> simp [hb, hbackend]

/-- The samples that were read in the turns of the poller, in order. -/
def samplesRead (source : DcgmScrapeSource) (answers : List (Option Response)) : List (GpuPressure F) :=
  answers.filterMap (sampleRead source)

/-- A connection to an exporter that sends this text. -/
def exporter (response : List Char) : Network where
  Addr := Unit
  Stream := Unit
  toSocketAddrs _ _ := .ok [()]
  connectTimeout _ _ := .ok ()
  setReadTimeout _ _ := .ok ()
  setWriteTimeout _ _ := .ok ()
  writeAll _ _ := .ok ()
  readToString _ := .ok response

def refused : Network := { exporter [] with connectTimeout := fun _ _ => .error "Connection refused (os error 111)" }

def demoSource : HttpScrapeSource := { backend := ⟨0⟩, gpuIndex := 0, endpoint := "http://localhost:9400".toList }

def demoResponse (payload : Payload) : Response where
  version := "HTTP/1.1".toList
  code := "200".toList
  reason := "OK".toList
  headers := ["Connection: close".toList]
  payload := payload
  version_http1 := Or.inl rfl
  code_length := by decide
  code_digits := by
    have hdigits : "200".toList.all Char.isDigit := by decide
    exact List.all_eq_true.mp hdigits
  reason_line := by
    unfold IsLine
    decide
  headers_lines := by
    rw [List.forall_mem_singleton]
    unfold IsLine
    decide

def plainResponse : Response := demoResponse (.plain ownLines)

def chunkedResponse : Response :=
  demoResponse (.chunked [⟨"5f".toList, ownLines, by decide, by
    have hdigits : "5f".toList.all Char.isHexDigit := by decide
    exact List.all_eq_true.mp hdigits⟩])

def threeTurns : List (Network × Option Response) :=
  [(exporter plainResponse.text, some plainResponse), (exporter chunkedResponse.text, some chunkedResponse),
    (refused, none)]

theorem threeTurns_sends : ∀ turn ∈ threeTurns, Sends demoSource turn.1 turn.2 := by
  have he : IsEndpoint demoSource.endpoint ⟨"localhost".toList, 9400, defaultPath⟩ :=
    HttpEndpoint.parse_iff.mp (by decide +kernel)
  have hanswers : ∀ response e, (exporter response).Answers e demoSource.timeout response :=
    fun _ _ => ⟨(), [], (), (), rfl, rfl, rfl, rfl, rfl, rfl⟩
  unfold threeTurns
  rw [List.forall_mem_cons, List.forall_mem_cons, List.forall_mem_singleton]
  refine ⟨⟨_, he, hanswers _ _⟩, ⟨_, he, hanswers _ _⟩, ?_⟩
  rintro e response - ⟨address, rest, stream, sent, -, hconnect, -⟩
  cases hconnect

/-- The bits of one half. -/
def demoBits (x : Rat) : UInt32 := if x = 1 / 2 then 0x3f000000 else 0

end Riftgate.Signals
