import Mathlib.Data.Nat.Basic
import Mathlib.Order.Lattice
import SourceChain.Config.Source

/-!
# What sources of configuration make together

Sources are sorted by precedence and their layers merged in that order. What comes of it can be said
without sorting or merging: each option is decided by one source (`Settles`), and if some source
gives no layer, one of those is the first to fail (`FailsFirst`). Both are read off the list as it
was given.

The two are alike. A list and its stable sort by a key have the same elements of each key in the
same order, so the first element of the sort with a property is, in the list itself, the one before
which no element with the property has a key as small, and behind which none has a smaller one
(`findSome?_eq_some_iff_firstBy`). For failures the property is failing. For an option it is setting
the option, and list and order are both read backwards.

Merging acts on one option at a time, and an option takes part in it by two laws only (`IsOption`).
So the last of the layers that set an option decides it, whatever other options there are.
-/

namespace SourceChain.Config

/-! ### Searching a stable sort -/

section StableSort

variable {α β κ : Type} [LinearOrder κ] {f : α → Option β} {key : α → κ} {l l' : List α} {v : β}

/-- What `f` gives for the element with the least key among those for which it gives anything, and
for the first of them in the list if there are several. -/
def FirstBy (key : α → κ) (f : α → Option β) (l : List α) (v : β) : Prop :=
  ∃ before a after, l = before ++ a :: after ∧ f a = some v ∧
    (∀ b ∈ before, f b ≠ none → key a < key b) ∧ ∀ b ∈ after, f b ≠ none → key a ≤ key b

/-- Of two elements that are both first, neither stands before the other. -/
theorem eq_of_both_first {v' : β} {before between after after' : List α} {a a' : α}
    (hbehind : a :: after = between ++ a' :: after') (ha : f a = some v) (ha' : f a' = some v')
    (hafter : ∀ b ∈ after, f b ≠ none → key a ≤ key b)
    (hbefore : ∀ b ∈ before ++ between, f b ≠ none → key a' < key b) : v = v' := by
  rcases between with - | ⟨first, between⟩
  · obtain rfl := (List.cons.inj hbehind).1
    exact Option.some.inj (ha.symm.trans ha')
  · obtain ⟨rfl, rfl⟩ := List.cons.inj hbehind
    have hlt : key a' < key a :=
      hbefore a (List.mem_append_right _ List.mem_cons_self) (ha ▸ Option.some_ne_none v)
    have hle : key a ≤ key a' :=
      hafter a' (List.mem_append_right _ List.mem_cons_self) (ha' ▸ Option.some_ne_none v')
    exact absurd hle (not_le_of_gt hlt)

theorem FirstBy.unique {v' : β} (h : FirstBy key f l v) (h' : FirstBy key f l v') : v = v' := by
  obtain ⟨before, a, after, hsplit, ha, hbefore, hafter⟩ := h
  obtain ⟨before', a', after', hsplit', ha', hbefore', hafter'⟩ := h'
  rcases List.append_eq_append_iff.1 (hsplit.symm.trans hsplit') with
    ⟨between, rfl, hbehind⟩ | ⟨between, rfl, hbehind⟩
  · exact eq_of_both_first hbehind ha ha' hafter hbefore'
  · exact (eq_of_both_first hbehind ha' ha hafter' hbefore).symm

/-- The first element of a stable sort is the first by key in the list that was sorted. -/
theorem firstBy_of_findSome? (hsorted : l'.Pairwise fun a b ↦ key a ≤ key b)
    (hstable : ∀ k, l'.filter (key · = k) = l.filter (key · = k))
    (h : l'.findSome? f = some v) : FirstBy key f l v := by
  obtain ⟨passed, a, rest, rfl, ha, hpassed⟩ := List.findSome?_eq_some_iff.1 h
  -- in the list, the elements of the key of `a` are split as they are in the sort
  have hhead : decide (key a = key a) = true := decide_eq_true rfl
  have hkey := (hstable (key a)).symm
  rw [List.filter_append, List.filter_cons_of_pos (p := (key · = key a)) hhead,
    List.filter_eq_append_iff] at hkey
  obtain ⟨lower, upper, rfl, hlower, hupper⟩ := hkey
  obtain ⟨others, after, rfl, hothers, -, -⟩ := List.filter_eq_cons_iff.1 hupper
  have hle : ∀ b ∈ lower ++ (others ++ a :: after), f b ≠ none → key a ≤ key b := by
    intro b hb hne
    have hmem : b ∈ (passed ++ a :: rest).filter (key · = key b) := by
      rw [hstable]
      exact List.mem_filter.2 ⟨hb, decide_eq_true rfl⟩
    rcases List.mem_append.1 (List.mem_filter.1 hmem).1 with hb | hb
    · exact absurd (hpassed b hb) hne
    · rcases List.mem_cons.1 hb with rfl | hb
      · exact le_rfl
      · exact List.rel_of_pairwise_cons (List.pairwise_append.1 hsorted).2.1 hb
  refine ⟨lower ++ others, a, after, by rw [List.append_assoc], ha, fun b hb hne ↦ ?_,
    fun b hb hne ↦ ?_⟩
  · refine lt_of_le_of_ne (hle b ?_ hne) fun heq ↦ ?_
    · rw [← List.append_assoc]
      exact List.mem_append_left _ hb
    · rcases List.mem_append.1 hb with hb | hb
      · have hmem : b ∈ passed.filter (key · = key a) := by
          rw [← hlower]
          exact List.mem_filter.2 ⟨hb, decide_eq_true heq.symm⟩
        exact hne (hpassed b (List.mem_filter.1 hmem).1)
      · exact hothers b hb (decide_eq_true heq.symm)
  · exact hle b (List.mem_append_right _ (List.mem_append_right _ (List.mem_cons_of_mem a hb))) hne

/-- Searching a stable sort finds what is first by key in the list that was sorted. -/
theorem findSome?_eq_some_iff_firstBy (hsorted : l'.Pairwise fun a b ↦ key a ≤ key b)
    (hstable : ∀ k, l'.filter (key · = k) = l.filter (key · = k)) :
    l'.findSome? f = some v ↔ FirstBy key f l v := by
  refine ⟨firstBy_of_findSome? hsorted hstable, fun h ↦ ?_⟩
  rcases hfind : l'.findSome? f with - | w
  · obtain ⟨before, a, after, rfl, ha, -, -⟩ := h
    have hmem : a ∈ l'.filter (key · = key a) := by
      rw [hstable]
      exact List.mem_filter.2
        ⟨List.mem_append_right _ List.mem_cons_self, decide_eq_true rfl⟩
    have hnone := List.findSome?_eq_none_iff.1 hfind a (List.mem_filter.1 hmem).1
    exact absurd (ha.symm.trans hnone) (Option.some_ne_none v)
  · rw [(firstBy_of_findSome? hsorted hstable hfind).unique h]

end StableSort

/-! ### The order of sources -/

theorem Precedence.rank_inj {p q : Precedence} : p.rank = q.rank ↔ p = q := by
  cases p <;> cases q <;> decide

theorem rank_le_trans (a b c : Source) (hab : decide (a.precedence.rank ≤ b.precedence.rank) = true)
    (hbc : decide (b.precedence.rank ≤ c.precedence.rank) = true) :
    decide (a.precedence.rank ≤ c.precedence.rank) = true :=
  decide_eq_true (Nat.le_trans (of_decide_eq_true hab) (of_decide_eq_true hbc))

theorem rank_le_total (a b : Source) :
    (decide (a.precedence.rank ≤ b.precedence.rank) ||
      decide (b.precedence.rank ≤ a.precedence.rank)) = true :=
  Bool.or_eq_true_iff.2 ((Nat.le_total _ _).imp decide_eq_true decide_eq_true)

theorem inOrder_sorted (sources : List Source) :
    (inOrder sources).Pairwise fun a b ↦ a.precedence.rank ≤ b.precedence.rank :=
  (List.pairwise_mergeSort rank_le_trans rank_le_total sources).imp of_decide_eq_true

/-- Sources of one rank stay in the order in which they are listed. -/
theorem filter_inOrder (sources : List Source) (rank : ℕ) :
    (inOrder sources).filter (·.precedence.rank = rank) =
      sources.filter (·.precedence.rank = rank) := by
  have hsame : (sources.filter (·.precedence.rank = rank)).Pairwise fun a b ↦
      decide (a.precedence.rank ≤ b.precedence.rank) = true := by
    refine List.pairwise_filter.2 (List.pairwise_of_forall fun a b ha hb ↦ ?_)
    exact decide_eq_true (Nat.le_of_eq
      ((of_decide_eq_true ha).trans (of_decide_eq_true hb).symm))
  have hsublist : (sources.filter (·.precedence.rank = rank)).Sublist (inOrder sources) :=
    List.sublist_mergeSort rank_le_trans rank_le_total hsame List.filter_sublist
  have hfilter := hsublist.filter (·.precedence.rank = rank)
  rw [List.filter_filter] at hfilter
  simp only [Bool.and_self] at hfilter
  refine (hfilter.eq_of_length ?_).symm
  exact ((List.mergeSort_perm sources _).filter _).length_eq.symm

/-- Sorted sources are those of each precedence in turn. -/
theorem eq_flatMap_filter_of_sorted {sources : List Source}
    (h : sources.Pairwise fun a b ↦ a.precedence.rank ≤ b.precedence.rank) :
    sources = [Precedence.defaults, .configFile, .environment].flatMap fun p ↦
      sources.filter (·.precedence.rank = p.rank) := by
  induction sources with
  | nil => rfl
  | cons source sources ih =>
    obtain ⟨hfirst, hrest⟩ := List.pairwise_cons.1 h
    -- what is weaker than the first source is not there
    have hnone : ∀ p : Precedence, p.rank < source.precedence.rank →
        sources.filter (·.precedence.rank = p.rank) = [] := by
      intro p hp
      refine List.filter_eq_nil_iff.2 fun other hother heq ↦ ?_
      have hle := hfirst other hother
      rw [of_decide_eq_true heq] at hle
      exact absurd hp (Nat.not_lt.2 hle)
    have hih := ih hrest
    rcases hp : source.precedence with _ | _ | _
    · simpa [List.filter_cons, hp, Precedence.rank] using hih
    · have hdefaults := hnone .defaults (by rw [hp]; decide)
      simp only [Precedence.rank] at hdefaults hih
      simpa [List.filter_cons, hp, Precedence.rank, hdefaults] using hih
    · have hdefaults := hnone .defaults (by rw [hp]; decide)
      have hfile := hnone .configFile (by rw [hp]; decide)
      simp only [Precedence.rank] at hdefaults hfile hih
      simpa [List.filter_cons, hp, Precedence.rank, hdefaults, hfile] using hih

/-- Sources in order are those of each precedence in turn, as they are listed. -/
theorem inOrder_eq_flatMap (sources : List Source) :
    inOrder sources = [Precedence.defaults, .configFile, .environment].flatMap fun p ↦
      sources.filter (·.precedence = p) := by
  have hflat := eq_flatMap_filter_of_sorted (inOrder_sorted sources)
  simp only [filter_inOrder] at hflat
  simpa only [Precedence.rank_inj] using hflat

/-- Listing sources otherwise does not change their order, if those of equal precedence stay as they
are. -/
theorem inOrder_eq_of_filter_eq {sources reordered : List Source}
    (h : ∀ p, reordered.filter (·.precedence = p) = sources.filter (·.precedence = p)) :
    inOrder reordered = inOrder sources := by
  rw [inOrder_eq_flatMap, inOrder_eq_flatMap]
  simp only [h]

/-! ### What sources say -/

namespace Source

/-- What a source sets an option to, if it gives a layer that sets it. -/
def value? {α : Type} (option : Layer → Option α) (source : Source) : Option α :=
  match source.load with
  | .ok layer => option layer
  | .error _ => none

/-- Why a source gives no layer, if it gives none. -/
def failure? (source : Source) : Option Error :=
  match source.load with
  | .ok _ => none
  | .error e => some e

theorem failure?_eq_none_iff {source : Source} :
    source.failure? = none ↔ ∃ layer, source.load = .ok layer := by
  rw [failure?]
  split
  next layer hload => exact iff_of_true rfl ⟨layer, hload⟩
  next e hload => exact iff_of_false (Option.some_ne_none e) (by simp [hload])

end Source

/-- What layers set the level of the log to. -/
def Layer.level? (layer : Layer) : Option String :=
  layer.logging.bind (·.level)

/-- What layers set the format of the log to. -/
def Layer.format? (layer : Layer) : Option LogFormat :=
  layer.logging.bind (·.format)

theorem Layer.level_resolve (layer : Layer) :
    layer.resolve.logging.level = layer.level?.getD "info" := by
  rw [Layer.level?, Layer.resolve, LoggingLayer.resolve]
  rcases layer.logging with - | logging <;> rfl

theorem Layer.format_resolve (layer : Layer) :
    layer.resolve.logging.format = layer.format?.getD .compact := by
  rw [Layer.format?, Layer.resolve, LoggingLayer.resolve]
  rcases layer.logging with - | logging <;> rfl

/-- A part of layers that merging treats as an option: the upper layer is asked first, and an empty
layer sets nothing. -/
structure IsOption {α : Type} (option : Layer → Option α) : Prop where
  /-- The upper layer is asked first. -/
  merge : ∀ base upper : Layer, option (base.merge upper) = (option upper).or (option base)
  /-- The empty layer sets nothing. -/
  empty : option {} = none

theorem isOption_sourcemaps : IsOption Layer.sourcemaps :=
  ⟨fun _ _ ↦ rfl, rfl⟩

theorem isOption_sourcesContent : IsOption Layer.sourcesContent :=
  ⟨fun _ _ ↦ rfl, rfl⟩

/-- What merging logging options chooses is an option of the layers around them. -/
theorem isOption_bind_logging {α : Type} {part : LoggingLayer → Option α}
    (h : ∀ base upper : LoggingLayer, part (base.merge upper) = (part upper).or (part base)) :
    IsOption fun layer ↦ layer.logging.bind part where
  merge base upper := by
    rw [Layer.merge]
    rcases base.logging with - | lower <;> rcases upper.logging with - | higher
    · rfl
    · show part higher = (part higher).or none
      rw [Option.or_none]
    · rfl
    · exact h lower higher
  empty := rfl

theorem isOption_level : IsOption Layer.level? :=
  isOption_bind_logging fun _ _ ↦ rfl

theorem isOption_format : IsOption Layer.format? :=
  isOption_bind_logging fun _ _ ↦ rfl

/-! ### Merging in order -/

section Merging

variable {α : Type} {option : Layer → Option α} {base layer : Layer} {sources : List Source}
  {e : Error}

/-- Merging ends at the first source that gives no layer. -/
theorem mergeLayers_eq_error_iff :
    mergeLayers base sources = .error e ↔ sources.findSome? Source.failure? = some e := by
  induction sources generalizing base with
  | nil => simp [mergeLayers]
  | cons source sources ih =>
    rw [mergeLayers, List.findSome?_cons]
    split
    next layer hload =>
      have hnone : source.failure? = none := Source.failure?_eq_none_iff.2 ⟨layer, hload⟩
      rw [hnone]
      exact ih
    next error hload =>
      have hsome : source.failure? = some error := by rw [Source.failure?, hload]
      rw [hsome, Except.error.injEq, Option.some.injEq]

/-- An option of merged layers is decided by the last source that sets it. -/
theorem IsOption.of_mergeLayers (h : IsOption option)
    (hmerge : mergeLayers base sources = .ok layer) :
    option layer = (sources.reverse.findSome? (Source.value? option)).or (option base) := by
  induction sources generalizing base with
  | nil =>
    obtain rfl := Except.ok.inj hmerge
    rfl
  | cons source sources ih =>
    rw [mergeLayers] at hmerge
    split at hmerge
    next upper hload =>
      have hvalue : [source].findSome? (Source.value? option) = option upper := by
        rw [List.findSome?_singleton, Source.value?, hload]
      rw [ih hmerge, h.merge, List.reverse_cons, List.findSome?_append, hvalue, Option.or_assoc]
    next => cases hmerge

end Merging

/-! ### What sources come to -/

/-- What makes the sources of a list fail: the failure of the first source that gives no layer, in
order of precedence and then as listed. -/
inductive FailsFirst (sources : List Source) : Error → Prop
  /-- No source that fails is weaker, and of those as weak none is listed before. -/
  | intro {before after : List Source} {source : Source} {e : Error}
      (hsplit : sources = before ++ source :: after) (hfailure : source.failure? = some e)
      (hbefore : ∀ other ∈ before, other.failure? ≠ none →
        source.precedence.rank < other.precedence.rank)
      (hafter : ∀ other ∈ after, other.failure? ≠ none →
        source.precedence.rank ≤ other.precedence.rank) : FailsFirst sources e

/-- What the sources of a list make of an option. -/
inductive Settles {α : Type} (option : Layer → Option α) (fallback : α) (sources : List Source) :
    α → Prop
  /-- The strongest source that sets the option decides, and of several as strong the one that is
  listed last. -/
  | set {before after : List Source} {source : Source} {value : α}
      (hsplit : sources = before ++ source :: after) (hvalue : source.value? option = some value)
      (hbefore : ∀ other ∈ before, other.value? option ≠ none →
        other.precedence.rank ≤ source.precedence.rank)
      (hafter : ∀ other ∈ after, other.value? option ≠ none →
        other.precedence.rank < source.precedence.rank) : Settles option fallback sources value
  /-- If no source sets the option, it takes its default. -/
  | unset (hnone : ∀ source ∈ sources, source.value? option = none) :
      Settles option fallback sources fallback

section Outcome

variable {α : Type} {option : Layer → Option α} {fallback value : α} {sources : List Source}
  {config : Config} {e : Error}

theorem failsFirst_iff_firstBy :
    FailsFirst sources e ↔ FirstBy (·.precedence.rank) Source.failure? sources e := by
  constructor
  · rintro ⟨hsplit, hfailure, hbefore, hafter⟩
    exact ⟨_, _, _, hsplit, hfailure, hbefore, hafter⟩
  · rintro ⟨before, source, after, hsplit, hfailure, hbefore, hafter⟩
    exact ⟨hsplit, hfailure, hbefore, hafter⟩

/-- Read backwards, in the list and in the order of precedence, the source that decides an option is
the first that sets it. -/
theorem settles_iff_firstBy :
    Settles option fallback sources value ↔
      FirstBy (fun source ↦ OrderDual.toDual source.precedence.rank) (Source.value? option)
          sources.reverse value ∨
        (∀ source ∈ sources, source.value? option = none) ∧ value = fallback := by
  constructor
  · rintro (⟨rfl, hvalue, hbefore, hafter⟩ | hnone)
    · refine .inl ⟨_, _, _, by rw [List.reverse_append, List.reverse_cons, List.append_assoc]; rfl,
        hvalue, fun other hother ↦ ?_, fun other hother ↦ ?_⟩
      · exact hafter other (List.mem_reverse.1 hother)
      · exact hbefore other (List.mem_reverse.1 hother)
    · exact .inr ⟨hnone, rfl⟩
  · rintro (⟨before, source, after, hsplit, hvalue, hbefore, hafter⟩ | ⟨hnone, rfl⟩)
    · have hsplit' : sources = after.reverse ++ source :: before.reverse := by
        rw [← List.reverse_reverse sources, hsplit, List.reverse_append, List.reverse_cons,
          List.append_assoc]
        rfl
      exact .set hsplit' hvalue (fun other hother ↦ hafter other (List.mem_reverse.1 hother))
        fun other hother ↦ hbefore other (List.mem_reverse.1 hother)
    · exact .unset hnone

/-- Searching the sources in order finds the first failure. -/
theorem findSome?_failure?_inOrder :
    (inOrder sources).findSome? Source.failure? = some e ↔ FailsFirst sources e := by
  rw [failsFirst_iff_firstBy]
  exact findSome?_eq_some_iff_firstBy (inOrder_sorted sources) (filter_inOrder sources)

theorem mem_reverse_inOrder {source : Source} :
    source ∈ (inOrder sources).reverse ↔ source ∈ sources :=
  List.mem_reverse.trans List.mem_mergeSort

/-- Searching the sources backwards finds the one that decides an option. -/
theorem getD_findSome?_value?_inOrder :
    ((inOrder sources).reverse.findSome? (Source.value? option)).getD fallback = value ↔
      Settles option fallback sources value := by
  have hfirst : ∀ v, (inOrder sources).reverse.findSome? (Source.value? option) = some v ↔
      FirstBy (fun source ↦ OrderDual.toDual source.precedence.rank) (Source.value? option)
        sources.reverse v := by
    refine fun v ↦ findSome?_eq_some_iff_firstBy (List.pairwise_reverse.2 (inOrder_sorted sources))
      fun rank ↦ ?_
    rw [List.filter_reverse, List.filter_reverse]
    exact congrArg List.reverse (filter_inOrder sources (OrderDual.ofDual rank))
  have hunset : (inOrder sources).reverse.findSome? (Source.value? option) = none ↔
      ∀ source ∈ sources, source.value? option = none := by
    simp only [List.findSome?_eq_none_iff, mem_reverse_inOrder]
  rw [settles_iff_firstBy, ← hfirst, ← hunset]
  rcases (inOrder sources).reverse.findSome? (Source.value? option) with - | found
  · simp [eq_comm]
  · simp

/-- A configuration that is loaded is that of the merged layers. -/
theorem loadFrom_eq_ok_iff :
    loadFrom sources = .ok config ↔
      ∃ layer, mergeLayers {} (inOrder sources) = .ok layer ∧ layer.resolve = config := by
  rw [loadFrom]
  split
  next layer hmerge => simp [hmerge]
  next e hmerge => simp [hmerge]

theorem loadFrom_eq_error_iff : loadFrom sources = .error e ↔ FailsFirst sources e := by
  have hmerge : mergeLayers {} (inOrder sources) = .error e ↔ FailsFirst sources e :=
    mergeLayers_eq_error_iff.trans findSome?_failure?_inOrder
  rw [← hmerge, loadFrom]
  split
  next layer hlayer => simp [hlayer]
  next error herror => rw [herror, Except.error.injEq, Except.error.injEq]

/-- Loading succeeds exactly if every source gives a layer. -/
theorem exists_loadFrom_eq_ok_iff :
    (∃ config, loadFrom sources = .ok config) ↔
      ∀ source ∈ sources, ∃ layer, source.load = .ok layer := by
  have hnone : (inOrder sources).findSome? Source.failure? = none ↔
      ∀ source ∈ sources, ∃ layer, source.load = .ok layer := by
    rw [List.findSome?_eq_none_iff]
    simp only [inOrder, List.mem_mergeSort, Source.failure?_eq_none_iff]
  rw [← hnone, Option.eq_none_iff_forall_not_mem]
  simp only [Option.mem_def, findSome?_failure?_inOrder, ← loadFrom_eq_error_iff]
  rcases loadFrom sources with e | config
  · simp
  · simp

/-- An option of a loaded configuration is what the sources make of it. -/
theorem IsOption.settles (h : IsOption option) {layer : Layer}
    (hmerge : mergeLayers {} (inOrder sources) = .ok layer) (fallback : α) :
    Settles option fallback sources ((option layer).getD fallback) := by
  rw [← getD_findSome?_value?_inOrder, h.of_mergeLayers hmerge, h.empty, Option.or_none]

theorem Settles.unique {value' : α} (h : Settles option fallback sources value)
    (h' : Settles option fallback sources value') : value = value' :=
  (getD_findSome?_value?_inOrder.2 h).symm.trans (getD_findSome?_value?_inOrder.2 h')

end Outcome

/-- A configuration is what the sources of a list make of each option by itself. -/
structure SettlesAll (sources : List Source) (config : Config) : Prop where
  sourcemaps : Settles Layer.sourcemaps true sources config.sourcemaps
  sourcesContent : Settles Layer.sourcesContent true sources config.sourcesContent
  level : Settles Layer.level? "info" sources config.logging.level
  format : Settles Layer.format? .compact sources config.logging.format

namespace SettlesAll

variable {sources : List Source} {config config' : Config}

theorem of_loadFrom (h : loadFrom sources = .ok config) : SettlesAll sources config := by
  obtain ⟨layer, hmerge, rfl⟩ := loadFrom_eq_ok_iff.1 h
  exact
    { sourcemaps := isOption_sourcemaps.settles hmerge true
      sourcesContent := isOption_sourcesContent.settles hmerge true
      level := layer.level_resolve ▸ isOption_level.settles hmerge "info"
      format := layer.format_resolve ▸ isOption_format.settles hmerge .compact }

theorem unique (h : SettlesAll sources config) (h' : SettlesAll sources config') :
    config = config' := by
  obtain ⟨sourcemaps, sourcesContent, level, format⟩ := config
  obtain ⟨sourcemaps', sourcesContent', level', format'⟩ := config'
  obtain rfl := h.sourcemaps.unique h'.sourcemaps
  obtain rfl := h.sourcesContent.unique h'.sourcesContent
  obtain rfl := h.level.unique h'.level
  obtain rfl := h.format.unique h'.format
  rfl

end SettlesAll

/-- Loading succeeds exactly if every source gives a layer, and then each option by itself is what
the strongest source that sets it says, or its default. Otherwise it fails as the first source in
order of precedence that fails. So listing the sources otherwise makes no difference, as long as
those of equal precedence stay in order, and neither does it in which order neighbouring layers are
merged. -/
theorem loadFrom_determined_by_precedence (sources : List Source) :
    ((∃ config, loadFrom sources = .ok config) ↔
      ∀ source ∈ sources, ∃ layer, source.load = .ok layer) ∧
    (∀ config, loadFrom sources = .ok config ↔
      (∀ source ∈ sources, ∃ layer, source.load = .ok layer) ∧ SettlesAll sources config) ∧
    (∀ e, loadFrom sources = .error e ↔ FailsFirst sources e) ∧
    (∀ reordered : List Source,
      (∀ p, reordered.filter (·.precedence = p) = sources.filter (·.precedence = p)) →
        loadFrom reordered = loadFrom sources) ∧
    (∀ a b c : Layer, (a.merge b).merge c = a.merge (b.merge c)) ∧
    ∀ layer : Layer, Layer.merge {} layer = layer ∧ layer.merge {} = layer := by
  refine ⟨exists_loadFrom_eq_ok_iff, fun config ↦ ⟨fun h ↦ ?_, fun ⟨hload, hsettles⟩ ↦ ?_⟩,
    fun e ↦ loadFrom_eq_error_iff, fun reordered hreordered ↦ ?_, Layer.merge_assoc,
    fun layer ↦ ⟨Layer.empty_merge layer, Layer.merge_empty layer⟩⟩
  · exact ⟨exists_loadFrom_eq_ok_iff.1 ⟨config, h⟩, .of_loadFrom h⟩
  · obtain ⟨config', h⟩ := exists_loadFrom_eq_ok_iff.2 hload
    rw [h, (SettlesAll.of_loadFrom h).unique hsettles]
  · rw [loadFrom, loadFrom, inOrder_eq_of_filter_eq hreordered]

/-- Two variables of the environment, and a file listed behind them. -/
def sampleSources : List Source :=
  [.fixed .environment { sourcemaps := some false, logging := some { level := some "warn" } },
    .fixed .environment { logging := some { level := some "debug" } },
    .fixed .configFile { sourcemaps := some true, sourcesContent := some false }]

theorem loadFrom_sampleSources :
    loadFrom sampleSources = .ok ⟨false, false, ⟨"debug", .compact⟩⟩ := by
  rw [loadFrom, inOrder_eq_flatMap]
  rfl

theorem loadFrom_sampleSources_determined :
    let reordered := sampleSources.drop 2 ++ sampleSources.take 2
    (∀ p, reordered.filter (·.precedence = p) = sampleSources.filter (·.precedence = p)) ∧
      loadFrom reordered = .ok ⟨false, false, ⟨"debug", .compact⟩⟩ ∧
      SettlesAll sampleSources ⟨false, false, ⟨"debug", .compact⟩⟩ := by
  intro reordered
  have hreordered : ∀ p,
      reordered.filter (·.precedence = p) = sampleSources.filter (·.precedence = p) := by
    intro p
    cases p <;> rfl
  obtain ⟨-, hok, -, horder, -⟩ := loadFrom_determined_by_precedence sampleSources
  exact ⟨hreordered, (horder reordered hreordered).trans loadFrom_sampleSources,
    ((hok _).1 loadFrom_sampleSources).2⟩

end SourceChain.Config
