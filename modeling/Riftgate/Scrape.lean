import Riftgate.Exposition

/-!
# Lines of a scrape

A line comes back whole, and leaves a scrape about something else alone, exactly when its label values are plain.
-/

open Lib

namespace Riftgate.Dcgm

/-! ## A line -/

variable {F : Type} [Float64 F]

section Parse

variable {line rest token name labelsStr : List Char} {v : F}

theorem splitMetricAndValue_eq {metric : List Char} (hscan : scanMetric 0 line = some (metric, rest))
    (hword : firstWord (trim rest) = some token) : splitMetricAndValue line = .ok (metric, token) := by
  rw [splitMetricAndValue, hscan]
  simp only [hword]

theorem parse_labelled (hscan : scanMetric 0 line = some (name ++ '\x7b' :: (labelsStr ++ ['\x7d']), rest))
    (hword : firstWord (trim rest) = some token) (hvalue : Float64.parse token = some v) (hname : '\x7b' ∉ name) :
    MetricSample.parse line = (parseLabels labelsStr).map fun labels => MetricSample.mk name labels v := by
  have hblob : stripLast '\x7d' (labelsStr ++ ['\x7d']) = some labelsStr := stripLast_iff.mpr rfl
  rw [MetricSample.parse, splitMetricAndValue_eq hscan hword]
  simp only [bind, Except.bind, hvalue, splitOnce_append hname, hblob]
  cases parseLabels labelsStr <;> rfl

theorem parse_bare (hscan : scanMetric 0 line = some (name, rest)) (hword : firstWord (trim rest) = some token)
    (hvalue : Float64.parse token = some v) (hname : '\x7b' ∉ name) :
    MetricSample.parse line = .ok ⟨name, fun _ => none, v⟩ := by
  rw [MetricSample.parse, splitMetricAndValue_eq hscan hword]
  simp only [bind, Except.bind, hvalue, splitOnce_eq_none hname]
  rfl

theorem labels_of_parse {blob : List Char} {sample : MetricSample F}
    (hscan : scanMetric 0 line = some (name ++ '\x7b' :: blob, rest)) (hname : '\x7b' ∉ name)
    (h : MetricSample.parse line = .ok sample) :
    ∃ labelsStr, blob = labelsStr ++ ['\x7d'] ∧ parseLabels labelsStr = .ok sample.labels := by
  rw [MetricSample.parse] at h
  cases hword : firstWord (trim rest) with
  | none =>
    rw [splitMetricAndValue, hscan] at h
    simp only [hword] at h
    cases h
  | some token =>
    rw [splitMetricAndValue_eq hscan hword] at h
    simp only [bind, Except.bind, splitOnce_append hname] at h
    cases hvalue : (Float64.parse token : Option F) with
    | none =>
      rw [hvalue] at h
      cases h
    | some v =>
      rw [hvalue] at h
      dsimp only at h
      cases hblob : stripLast '\x7d' blob with
      | none =>
        rw [hblob] at h
        cases h
      | some labelsStr =>
        rw [hblob] at h
        refine ⟨labelsStr, stripLast_iff.mp hblob, ?_⟩
        cases hlabels : parseLabels labelsStr with
        | error err =>
          simp only [hlabels] at h
          cases h
        | ok labels =>
          simp only [hlabels] at h
          cases h
          rfl

end Parse

/-- A line of the format, with the value that its last word stands for. -/
structure Line (F : Type) [Float64 F] where
  name : List Char
  labels : List Label
  token : List Char
  value : F
  isMetricName : IsMetricName name
  areLabelNames : ∀ l ∈ labels, IsLabelName l.1
  distinct : (labels.map Prod.fst).Nodup
  token_ne : token ≠ []
  token_word : ∀ c ∈ token, isWhiteSpace c = false
  parse_token : Float64.parse token = some value

namespace Line

variable (line : Line F)

def text : List Char := render line.name line.labels line.token

def sample : MetricSample F := ⟨line.name, labelMap line.labels, line.value⟩

theorem brace_notMem_name : '\x7b' ∉ line.name := notMem_name line.isMetricName.2.1 (by decide)

theorem labelChars : ∀ l ∈ line.labels, ∀ c ∈ l.1, isNameChar c := fun l hl => (line.areLabelNames l hl).1.2.1

theorem token_getLast_notBlank : ∀ c ∈ line.token.getLast?, isWhiteSpace c = false :=
  fun c hc => line.token_word c (List.mem_of_getLast? hc)

theorem firstWord_token : firstWord (trim (' ' :: line.token)) = some line.token := by
  have hdrop : line.token.dropWhile isWhiteSpace = line.token := by
    obtain ⟨c, l, heq⟩ := List.exists_cons_of_ne_nil line.token_ne
    have hc := line.token_word c (by rw [heq]; exact List.mem_cons_self)
    rw [heq, List.dropWhile_cons_of_neg (by simp [hc])]
  have htrim : trim (' ' :: line.token) = line.token := by
    rw [trim, List.dropWhile_cons_of_pos (by decide), hdrop, List.rdropWhile_eq_self_iff]
    intro hne hblank
    rw [line.token_word _ (List.getLast_mem hne)] at hblank
    cases hblank
  have htake : line.token.takeWhile (fun c => !isWhiteSpace c) = line.token := by
    rw [List.takeWhile_eq_self_iff]
    intro c hc
    rw [line.token_word c hc]
    rfl
  rw [htrim, firstWord, hdrop, htake]
  exact if_neg line.token_ne

theorem token_noBlank : ∀ c ∈ line.token, ¬ IsBlank c := by
  rintro c hc (rfl | rfl)
  · exact absurd (line.token_word _ hc) (by decide)
  · exact absurd (line.token_word _ hc) (by decide)

theorem text_labelled (h : line.labels ≠ []) :
    line.text = line.name ++ '\x7b' :: (labelsText line.labels ++ '\x7d' :: ' ' :: line.token) := by
  rw [text, render, metricText, if_neg h]
  simp only [List.append_assoc, List.cons_append, List.nil_append]

theorem text_bare (h : line.labels = []) : line.text = line.name ++ ' ' :: line.token := by
  rw [text, render, metricText, if_pos h]

theorem scanMetric_name (rest : List Char) :
    scanMetric 0 (line.name ++ '\x7b' :: rest) =
      (scanMetric 1 rest).map fun p => (line.name ++ '\x7b' :: p.1, p.2) := by
  have hdepth : depthAfter 0 line.name = some 0 := by
    have h := depthAfter_name line.isMetricName.2.1 0 []
    rwa [List.append_nil] at h
  rw [scanMetric_append hdepth, scanMetric, if_pos rfl, Option.map_map]
  rfl

theorem scanMetric_closed {d : Nat} (h : depthAfter 1 (labelsText line.labels) = some d) :
    scanMetric 1 (labelsText line.labels ++ '\x7d' :: ' ' :: line.token) =
      if d ≤ 1 then some (labelsText line.labels ++ ['\x7d'], ' ' :: line.token) else none := by
  rw [scanMetric_append h, scanMetric, if_neg (by decide), if_pos rfl, scanMetric, if_neg (by decide),
    if_neg (by decide)]
  by_cases hd : d ≤ 1
  · rw [if_pos hd, if_pos ⟨Or.inl rfl, by omega⟩]
    rfl
  · rw [if_neg hd, if_neg fun hc => absurd hc.2 (by omega), scanMetric_eq_none line.token_noBlank]
    rfl

theorem parse_closed (hne : line.labels ≠ []) {d : Nat} (hdepth : depthAfter 1 (labelsText line.labels) = some d)
    (hd : d ≤ 1) :
    MetricSample.parse line.text = .ok line.sample ↔
      parseLabels (labelsText line.labels) = .ok (labelMap line.labels) := by
  have hscan : scanMetric 0 line.text =
      some (line.name ++ '\x7b' :: (labelsText line.labels ++ ['\x7d']), ' ' :: line.token) := by
    rw [line.text_labelled hne, line.scanMetric_name, line.scanMetric_closed hdepth, if_pos hd]
    rfl
  rw [parse_labelled hscan line.firstWord_token line.parse_token line.brace_notMem_name]
  cases parseLabels (labelsText line.labels) with
  | error err => exact iff_of_false nofun nofun
  | ok labels =>
    rw [Except.map, Except.ok.injEq, Except.ok.injEq, sample, MetricSample.mk.injEq]
    exact ⟨fun h => h.2.1, fun h => ⟨rfl, h, rfl⟩⟩

theorem parse_deep (hne : line.labels ≠ []) {d : Nat} (hdepth : depthAfter 1 (labelsText line.labels) = some d)
    (hd : ¬ d ≤ 1) : MetricSample.parse line.text ≠ .ok line.sample := by
  have hscan : scanMetric 0 line.text = none := by
    rw [line.text_labelled hne, line.scanMetric_name, line.scanMetric_closed hdepth, if_neg hd]
    rfl
  rw [MetricSample.parse, splitMetricAndValue, hscan]
  exact nofun

theorem parse_early (hne : line.labels ≠ []) (hdepth : depthAfter 1 (labelsText line.labels) = none) :
    MetricSample.parse line.text ≠ .ok line.sample := by
  intro h
  obtain ⟨l₁, c, l₂, htext, hc, hscan⟩ := scanMetric_early hdepth ('\x7d' :: ' ' :: line.token)
  have hscan' : scanMetric 0 line.text =
      some (line.name ++ '\x7b' :: l₁, c :: (l₂ ++ '\x7d' :: ' ' :: line.token)) := by
    rw [line.text_labelled hne, line.scanMetric_name, hscan]
    rfl
  obtain ⟨labelsStr, hblob, hlabels⟩ := labels_of_parse hscan' line.brace_notMem_name h
  obtain ⟨front, l, rest, x, z, hsplit, hvalue, hl₁⟩ := blank_mem_value line.labelChars hc htext
  have hnames := line.areLabelNames
  have hmem : l ∈ line.labels := by
    rw [hsplit]
    exact List.mem_append_right _ List.mem_cons_self
  -- the brace that the reader strips is part of the value
  obtain ⟨y, hy⟩ : ∃ y, x = y ++ ['\x7d'] := by
    rw [hl₁] at hblob
    rcases List.eq_nil_or_concat' x with hnil | ⟨y, b, hxy⟩
    · have hlast := congrArg List.getLast? hblob
      rw [hnil, List.getLast?_concat] at hlast
      simp at hlast
    · have hlast := congrArg List.getLast? hblob
      rw [hxy, List.getLast?_concat, ← List.cons_append, ← List.cons_append, ← List.append_assoc, ← List.append_assoc,
        List.getLast?_concat, Option.some.injEq] at hlast
      exact ⟨y, by rw [hxy, hlast]⟩
  have hstr : labelsStr = textBefore front ++ openPair l y := by
    refine List.append_cancel_right (hblob.symm.trans (hl₁.trans ?_))
    rw [hy, openPair]
    simp only [List.append_assoc, List.cons_append]
  rw [hstr] at hlabels
  refine parseLabels_open (fun l' hl' => hnames l' (by rw [hsplit]; exact List.mem_append_left _ hl')) (hnames l hmem)
    (z := '\x7d' :: c :: z) ?_ hlabels (lookup_of_mem line.distinct hmem)
  rw [hvalue, hy, List.append_assoc, List.singleton_append]

/-- No value has a comma or anything to escape. Read one after the other, the values show no blank outside of braces,
and their braces leave the search where the closing one ends it. -/
def IsPlain : Prop := NoCutOrEscape line.labels ∧ ∃ d ≤ 1, depthAfter 1 (line.labels.flatMap Prod.snd) = some d

def RoundTrips : Prop := MetricSample.parse line.text = .ok line.sample

theorem roundTrips_iff : line.RoundTrips ↔ line.IsPlain := by
  unfold RoundTrips IsPlain
  by_cases hne : line.labels = []
  · have hscan : scanMetric 0 line.text = some (line.name, ' ' :: line.token) := by
      have hdepth := depthAfter_name line.isMetricName.2.1 0 []
      rw [List.append_nil] at hdepth
      rw [line.text_bare hne, scanMetric_append hdepth, scanMetric, if_neg (by decide), if_neg (by decide),
        if_pos ⟨Or.inl rfl, rfl⟩, Option.map_some, List.append_nil]
    have hplain : NoCutOrEscape line.labels := by
      rw [hne]
      exact List.forall_mem_nil _
    refine iff_of_true ?_ ⟨hplain, 1, Nat.le_refl 1, by rw [hne]; rfl⟩
    rw [parse_bare hscan line.firstWord_token line.parse_token line.brace_notMem_name, sample, hne]
    rfl
  · rw [← depthAfter_labelsText line.labelChars]
    cases hdepth : depthAfter 1 (labelsText line.labels) with
    | none => exact iff_of_false (line.parse_early hne hdepth) fun h => by obtain ⟨-, d, -, hd⟩ := h; cases hd
    | some d =>
      by_cases hd : d ≤ 1
      · rw [line.parse_closed hne hdepth hd, parseLabels_iff line.areLabelNames hne line.distinct]
        exact ⟨fun h => ⟨h, d, hd, rfl⟩, fun h => h.1⟩
      · refine iff_of_false (line.parse_deep hne hdepth hd) fun h => ?_
        obtain ⟨-, d', hd', heq⟩ := h
        cases heq
        exact hd hd'

end Line

/-! ## A scrape -/

/-- The metrics that the code collects. -/
def IsObserved (name : List Char) : Prop :=
  name ∈ ["DCGM_FI_DEV_GPU_UTIL".toList, "DCGM_FI_DEV_FB_USED".toList, "DCGM_FI_DEV_FB_FREE".toList,
    "DCGM_FI_DEV_FB_TOTAL".toList, "DCGM_FI_DEV_CLOCK_THROTTLE_REASONS".toList] ∨
  "DCGM_FI_DEV_ECC_".toList.isPrefixOf name

theorem observe_of_not_isObserved {sample : MetricSample F} (h : ¬ IsObserved sample.name) (s : DcgmSnapshot F) :
    s.observe sample = .ok s := by
  simp only [IsObserved, List.mem_cons, List.not_mem_nil, or_false, not_or] at h
  obtain ⟨⟨hutil, hused, hfree, htotal, hreasons⟩, hecc⟩ := h
  rw [DcgmSnapshot.observe, if_neg hutil, if_neg hused, if_neg hfree, if_neg htotal, if_neg hreasons, if_neg hecc]
  rfl

namespace Line

variable (line : Line F)

/-- The line is about another metric, or about another GPU. -/
def IsForeign (source : DcgmScrapeSource) : Prop :=
  ¬ IsObserved line.name ∨ line.sample.matches source.gpuIndex source.migUuid = false

/-- The line changes nothing in a scrape about something else, wherever it stands. -/
def IsHarmless : Prop :=
  ∀ (source : DcgmScrapeSource) (before after : List Char), line.IsForeign source →
    (before = [] ∨ before.getLast? = some '\n') →
      source.parseMetrics (F := F) (before ++ (line.text ++ '\n' :: after)) = source.parseMetrics (before ++ after)

theorem lineFeed_notMem_text : '\n' ∉ line.text := by
  have htoken : '\n' ∉ line.token := fun h => absurd (line.token_word _ h) (by decide)
  have hname : '\n' ∉ line.name := notMem_name line.isMetricName.2.1 (by decide)
  by_cases hne : line.labels = []
  · rw [line.text_bare hne, List.mem_append, List.mem_cons, not_or, not_or]
    exact ⟨hname, by decide, htoken⟩
  · rw [line.text_labelled hne]
    simp only [List.mem_append, List.mem_cons, not_or]
    exact ⟨hname, by decide, lineFeed_notMem_labelsText line.labelChars, by decide, by decide, htoken⟩

theorem text_ends : ∃ l, line.text = l ++ line.token := ⟨metricText line.name line.labels ++ [' '], by
  rw [text, render, List.append_assoc, List.singleton_append]⟩

theorem getLast_text : line.text.getLast? = line.token.getLast? := by
  obtain ⟨l, hl⟩ := line.text_ends
  rw [hl, List.getLast?_append_of_ne_nil _ line.token_ne]

theorem head_text : line.text.head? = line.name.head? := by
  have hne := line.isMetricName.1
  by_cases hlabels : line.labels = []
  · rw [line.text_bare hlabels, List.head?_append_of_ne_nil _ hne]
  · rw [line.text_labelled hlabels, List.head?_append_of_ne_nil _ hne]

theorem trim_text : trim line.text = line.text := by
  refine trim_eq_self (fun c hc => ?_) fun c hc => ?_
  · rw [line.head_text] at hc
    exact (isNameChar_plain (line.isMetricName.2.1 c (List.mem_of_head? hc))).1
  · rw [line.getLast_text] at hc
    exact line.token_getLast_notBlank c hc

theorem stripCr_text : stripCr line.text = line.text := by
  refine if_neg fun h => ?_
  rw [line.getLast_text] at h
  exact absurd (line.token_getLast_notBlank _ h) (by decide)

theorem parseLine_of_isForeign (h : line.RoundTrips) {source : DcgmScrapeSource} (hforeign : line.IsForeign source)
    (snapshot : DcgmSnapshot F) : source.parseLine snapshot line.text = .ok snapshot := by
  have hskip : ¬ (line.text = [] ∨ line.text.head? = some '#') := by
    rintro (hnil | hhash)
    · have hhead := line.head_text
      rw [hnil, List.head?_nil, eq_comm, List.head?_eq_none_iff] at hhead
      exact line.isMetricName.1 hhead
    · rw [line.head_text] at hhash
      exact notMem_name line.isMetricName.2.1 (by decide) (List.mem_of_head? hhash)
  unfold DcgmScrapeSource.parseLine
  rw [line.trim_text, if_neg hskip, h]
  rcases hforeign with hname | hgpu
  · have hobserve : snapshot.observe line.sample = .ok snapshot := observe_of_not_isObserved hname snapshot
    simp only [bind, Except.bind, hobserve]
    split <;> rfl
  · simp only [bind, Except.bind, hgpu]
    rfl

theorem isHarmless_of_roundTrips (h : line.RoundTrips) : line.IsHarmless := by
  intro source before after hforeign hbefore
  unfold DcgmScrapeSource.parseMetrics
  rw [lines_append hbefore, lines_append hbefore, lines_line line.lineFeed_notMem_text, line.stripCr_text,
    List.foldlM_append, List.foldlM_append]
  simp only [List.foldlM_cons, line.parseLine_of_isForeign h hforeign]
  rfl

/-- A line comes back as it was, and disturbs no scrape about something else, exactly when its labels are plain. -/
theorem recovered_iff_isPlain : line.RoundTrips ∧ line.IsHarmless ↔ line.IsPlain :=
  ⟨fun h => line.roundTrips_iff.mp h.1, fun h =>
    ⟨line.roundTrips_iff.mpr h, line.isHarmless_of_roundTrips (line.roundTrips_iff.mpr h)⟩⟩

end Line

/-- Exact arithmetic, with whole numbers as tokens. -/
instance : Float64 Rat where
  parse token := (parseUnsigned (2 ^ 53) token).map fun n => (n : Rat)
  display x := toString x
  toU64 x := UInt64.ofNat (min x.floor.toNat (2 ^ 64 - 1))

/-- The utilization of another GPU, with the name of its model. -/
def otherGpu : Line Rat where
  name := "DCGM_FI_DEV_GPU_UTIL".toList
  labels := [("gpu".toList, "1".toList), ("modelName".toList, "H100, 80GB".toList)]
  token := "42".toList
  value := 42
  isMetricName := by decide +kernel
  areLabelNames := by
    rw [List.forall_mem_cons, List.forall_mem_singleton]
    decide +kernel
  distinct := by decide +kernel
  token_ne := by decide +kernel
  token_word := by
    have hword : "42".toList.all fun c => !isWhiteSpace c := by decide +kernel
    simpa using hword
  parse_token := by decide +kernel

/-- What the scrape has of the GPU that is asked for. -/
def ownLines : List Char :=
  ("DCGM_FI_DEV_GPU_UTIL\x7bgpu=\"0\"\x7d 10\nDCGM_FI_DEV_FB_USED\x7bgpu=\"0\"\x7d 1\n" ++
    "DCGM_FI_DEV_FB_FREE\x7bgpu=\"0\"\x7d 1\n").toList

theorem otherGpu_breaks_scrape :
    ¬ (otherGpu.RoundTrips ∧ otherGpu.IsHarmless) ∧ otherGpu.IsForeign ⟨⟨7⟩, 0, none⟩ ∧
      (DcgmScrapeSource.parseMetrics (F := Rat) ⟨⟨7⟩, 0, none⟩ ownLines).isOk ∧
      ¬ (DcgmScrapeSource.parseMetrics (F := Rat) ⟨⟨7⟩, 0, none⟩ (ownLines ++ (otherGpu.text ++ ['\n']))).isOk := by
  refine ⟨fun h => ?_, Or.inr (by decide +kernel), by decide +kernel, by decide +kernel⟩
  obtain ⟨hvalues, -⟩ := otherGpu.roundTrips_iff.mp h.1
  exact (hvalues ("modelName".toList, "H100, 80GB".toList) (by decide +kernel)).1 (by decide +kernel)

end Riftgate.Dcgm
