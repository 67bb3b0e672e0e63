import Mathlib.Data.List.Forall2
import SourceChain.Proofs.Config.Precedence

/-!
# The configuration of a file and the environment

The configuration of the defaults, a file and the environment, said without layers: each option is
what its variable says, or else what the file says, or else its default (`Chosen`).

There are five things that can be wrong, and each is said by itself, whatever else is wrong
(`Fault`). Loading makes four readings in turn, and the faults are what they fail for (`fault_iff`). A
fault is found by the reading at the place of its stage (`Fault.getElem?_failures`), so loading, which
fails as the first reading that does, fails for the fault of the earliest stage.

All that is said about a variable rests on how one is read (`Environment.says_of_read`,
`Environment.read_eq_error_iff`). It is set if it holds UTF-8 text that is not empty, and then it is a
word in any case. To put a text into lower case and look it up comes to the same as to allow a capital
for each letter of a word (`toLower_eq_iff`), as the words have no capitals themselves.
-/

namespace SourceChain.Config

/-! ### Words in any case -/

/-- A text is a word, in which any letter may be a capital. -/
def InAnyCase (word text : String) : Prop :=
  List.Forall₂ (fun letter c ↦ c = letter ∨ c = letter.toUpper) word.toList text.toList

/-- The small letter of a capital is 32 places behind it. -/
theorem toNat_toLower (c : Char) :
    c.toLower.toNat = if 65 ≤ c.toNat ∧ c.toNat ≤ 90 then c.toNat + 32 else c.toNat := by
  split
  next h =>
    have hlower : c.toLower = _ := dif_pos h
    rw [hlower]
    have hsum : (c.val + 32).toNat = (c.toNat + 32) % 2 ^ 32 := UInt32.toNat_add _ _
    exact hsum.trans (by omega)
  next h =>
    have hlower : c.toLower = c := dif_neg h
    rw [hlower]

/-- The capital of a small letter is 32 places in front of it. -/
theorem toNat_toUpper (c : Char) :
    c.toUpper.toNat = if 97 ≤ c.toNat ∧ c.toNat ≤ 122 then c.toNat - 32 else c.toNat := by
  split
  next h =>
    have hupper : c.toUpper = _ := dif_pos h
    rw [hupper]
    have hsum : (c.val + (65 - 97)).toNat = (c.toNat + (2 ^ 32 - 32)) % 2 ^ 32 :=
      UInt32.toNat_add _ _
    exact hsum.trans (by omega)
  next h =>
    have hupper : c.toUpper = c := dif_neg h
    rw [hupper]

theorem toLower_eq_iff_eq_or {c letter : Char} (h : letter.isUpper = false) :
    c.toLower = letter ↔ c = letter ∨ c = letter.toUpper := by
  have hupper : ¬(65 ≤ letter.toNat ∧ letter.toNat ≤ 90) := of_decide_eq_false h
  simp only [← Char.toNat_inj, toNat_toLower, toNat_toUpper]
  split <;> split <;> omega

theorem toLower_eq_iff {word text : String} (h : ∀ letter ∈ word.toList, letter.isUpper = false) :
    text.toLower = word ↔ InAnyCase word text := by
  have hlower : text.toLower.toList = text.toList.map Char.toLower := String.toList_map
  rw [← String.toList_inj, hlower, InAnyCase]
  generalize text.toList = cs
  generalize word.toList = letters at h
  induction letters generalizing cs with
  | nil => cases cs <;> simp
  | cons letter letters ih =>
    cases cs with
    | nil => simp
    | cons c cs =>
      have htail := ih cs fun other hother ↦ h other (List.mem_cons_of_mem letter hother)
      rw [List.map_cons, List.cons.injEq, List.forall₂_cons]
      exact and_congr (toLower_eq_iff_eq_or (h letter List.mem_cons_self)) htail

/-- What a text means in a vocabulary: the meaning of the word that it is in any case. -/
inductive Means {α : Type} (words : List (String × α)) (text : String) : α → Prop
  | intro {word : String} {meaning : α} (hword : (word, meaning) ∈ words)
      (hcase : InAnyCase word text) : Means words text meaning

section Vocabulary

variable {α : Type} {words : List (String × α)} {text : String} {meaning : α}

/-- In a vocabulary without capitals a text is looked up in lower case. -/
theorem means_iff (h : ∀ entry ∈ words, ∀ letter ∈ entry.1.toList, letter.isUpper = false) :
    Means words text meaning ↔ (text.toLower, meaning) ∈ words := by
  constructor
  · rintro ⟨hword, hcase⟩
    rwa [(toLower_eq_iff (h _ hword)).2 hcase]
  · exact fun hword ↦ .intro hword ((toLower_eq_iff (h _ hword)).1 rfl)

/-- Looking up a word finds its meaning, if no word stands twice. -/
theorem lookup_eq_some_iff_mem (h : (words.map Prod.fst).Nodup) :
    words.lookup text = some meaning ↔ (text, meaning) ∈ words := by
  rw [List.lookup_eq_some_iff]
  constructor
  · rintro ⟨before, after, rfl, -⟩
    exact List.mem_append_right _ List.mem_cons_self
  · intro hmem
    obtain ⟨before, after, rfl⟩ := List.append_of_mem hmem
    refine ⟨before, after, rfl, fun entry hentry ↦ bne_iff_ne.2 ?_⟩
    rintro rfl
    rw [List.map_append, List.map_cons] at h
    exact (List.nodup_append.1 h).2.2 _ (List.mem_map_of_mem hentry) _ List.mem_cons_self rfl

/-- What reads a text as a word reads exactly what means something in the vocabulary, and of any
other text it has one thing to say. -/
structure ReadsWords (words : List (String × α)) (parse : String → Except Error α)
    (fault : String → Error) : Prop where
  /-- What is read is what the text means. -/
  ok_iff : ∀ {text meaning}, parse text = .ok meaning ↔ Means words text meaning
  /-- What is said of a text that means nothing. -/
  error_eq : ∀ {text e}, parse text = .error e → e = fault text

theorem ReadsWords.means_unique {parse : String → Except Error α} {fault : String → Error}
    (h : ReadsWords words parse fault) {meaning' : α} (hmeans : Means words text meaning)
    (hmeans' : Means words text meaning') : meaning = meaning' :=
  Except.ok.inj ((h.ok_iff.2 hmeans).symm.trans (h.ok_iff.2 hmeans'))

end Vocabulary

/-- The words for yes and no. -/
def flagWords : List (String × Bool) :=
  ["1", "true", "yes", "on"].map (·, true) ++ ["0", "false", "no", "off"].map (·, false)

theorem mem_flagWords_iff {word : String} {b : Bool} :
    (word, b) ∈ flagWords ↔
      (b = true ∧ word ∈ ["1", "true", "yes", "on"]) ∨
      (b = false ∧ word ∈ ["0", "false", "no", "off"]) := by
  rw [flagWords, List.mem_append, List.mem_map, List.mem_map]
  simp only [Prod.mk.injEq]
  constructor
  · rintro (⟨w, hw, rfl, rfl⟩ | ⟨w, hw, rfl, rfl⟩)
    · exact .inl ⟨rfl, hw⟩
    · exact .inr ⟨rfl, hw⟩
  · rintro (⟨rfl, hw⟩ | ⟨rfl, hw⟩)
    · exact .inl ⟨word, hw, rfl, rfl⟩
    · exact .inr ⟨word, hw, rfl, rfl⟩

theorem booleanOf?_eq_some_iff {text : String} {b : Bool} :
    booleanOf? text = some b ↔ Means flagWords text b := by
  have hlower : ∀ entry ∈ flagWords, ∀ letter ∈ entry.1.toList, letter.isUpper = false := by
    simp [flagWords]
  have hdisjoint : ∀ no ∈ ["0", "false", "no", "off"], no ∉ ["1", "true", "yes", "on"] := by
    decide
  rw [means_iff hlower, booleanOf?, mem_flagWords_iff]
  split
  next hyes =>
    have hno : text.toLower ∉ ["0", "false", "no", "off"] := fun hno ↦ hdisjoint _ hno hyes
    simp only [hyes, hno, Option.some.injEq, and_true, and_false, or_false, eq_comm]
  next hyes =>
    split
    next hno => simp only [hyes, hno, Option.some.injEq, and_true, and_false, false_or, eq_comm]
    next hno => simp only [hyes, hno, and_false, or_self, reduceCtorEq]

/-- Reads yes or no from the variable `key`. -/
def flagOf (key text : String) : Except Error Bool :=
  match booleanOf? text with
  | some b => .ok b
  | none => .error (.notBoolean key text)

theorem readsWords_flagOf (key : String) :
    ReadsWords flagWords (flagOf key) (.notBoolean key) where
  ok_iff := by
    intro text b
    rw [← booleanOf?_eq_some_iff, flagOf]
    rcases booleanOf? text with - | found <;> simp
  error_eq := by
    intro text e h
    rw [flagOf] at h
    split at h
    · cases h
    · exact (Except.error.inj h).symm

theorem readsWords_parse :
    ReadsWords LogFormat.words LogFormat.parse (.unknownLogFormat ·.toLower) where
  ok_iff := by
    intro text format
    have hlower : ∀ entry ∈ LogFormat.words, ∀ letter ∈ entry.1.toList,
        letter.isUpper = false := by
      simp [LogFormat.words, LogFormat.word]
    have hnodup : (LogFormat.words.map Prod.fst).Nodup := by decide
    rw [means_iff hlower, ← lookup_eq_some_iff_mem hnodup, ← LogFormat.ofWord?, LogFormat.parse]
    rcases LogFormat.ofWord? text.toLower with - | found <;> simp
  error_eq := by
    intro text e h
    rw [LogFormat.parse] at h
    split at h
    · cases h
    · exact (Except.error.inj h).symm

/-! ### Variables -/

/-- The octets of a text are those it is written with in UTF-8. -/
theorem fromUTF8?_eq_some_iff {octets : ByteArray} {text : String} :
    String.fromUTF8? octets = some text ↔ octets = text.toUTF8 := by
  constructor
  · intro h
    rw [String.fromUTF8?] at h
    split at h
    next hvalid =>
      obtain rfl := Option.some.inj h
      rfl
    next => cases h
  · rintro rfl
    rw [String.toUTF8_eq_toByteArray, String.fromUTF8?, dif_pos text.isValidUTF8]
    rfl

namespace Environment

variable {α : Type} {environment : Environment} {key text : String}

/-- A variable is set to a text: it holds the text in UTF-8, and the text is not empty. -/
def Sets (environment : Environment) (key text : String) : Prop :=
  environment key = some text.toUTF8 ∧ text ≠ ""

/-- A variable is set to a text that means nothing in a vocabulary. -/
def Misses (environment : Environment) (key : String) (words : List (String × α)) (text : String) :
    Prop :=
  environment.Sets key text ∧ ∀ meaning, ¬ Means words text meaning

theorem text?_eq_some_iff : environment.text? key = some text ↔ environment.Sets key text := by
  have hset : environment.Sets key text ↔
      (environment key).bind String.fromUTF8? = some text ∧ text ≠ "" := by
    rw [Sets, Option.bind_eq_some_iff]
    simp only [fromUTF8?_eq_some_iff, exists_eq_right]
  rw [hset, text?]
  split
  next hempty =>
    rw [hempty]
    simp [eq_comm]
  next hnonempty =>
    refine ⟨fun h ↦ ⟨h, ?_⟩, And.left⟩
    rintro rfl
    exact hnonempty h

theorem text?_eq_none_iff :
    environment.text? key = none ↔ ∀ text, ¬ environment.Sets key text := by
  simp only [Option.eq_none_iff_forall_ne_some, ne_eq, text?_eq_some_iff]

/-- Reads a variable with `parse`, if it is set. -/
def read (environment : Environment) (key : String) (parse : String → Except Error α) :
    Except Error (Option α) :=
  match environment.text? key with
  | none => .ok none
  | some text => (parse text).map some

theorem boolean_eq_read : environment.boolean key = environment.read key (flagOf key) := by
  rcases htext : environment.text? key with - | text
  · simp only [boolean, read, htext]
  · simp only [boolean, read, htext, flagOf]
    rcases booleanOf? text with - | b <;> rfl

theorem logFormat_eq_read : environment.logFormat key = environment.read key LogFormat.parse := by
  rcases htext : environment.text? key with - | text
  · simp only [logFormat, read, htext]
  · simp only [logFormat, read, htext]
    rcases LogFormat.parse text with e | format <;> rfl

/-- What a variable says in a vocabulary: nothing if it is not set, and otherwise what it means. -/
inductive Says (environment : Environment) (key : String) (means : String → α → Prop) :
    Option α → Prop
  | set {text : String} {meaning : α} (hset : environment.Sets key text)
      (hmeans : means text meaning) : Says environment key means (some meaning)
  | unset (hunset : ∀ text, ¬ environment.Sets key text) : Says environment key means none

section Reading

variable {words : List (String × α)} {parse : String → Except Error α} {fault : String → Error}

/-- A variable is read if it is not set or is set to a word. -/
theorem says_of_read (h : ReadsWords words parse fault) {o : Option α}
    (hread : environment.read key parse = .ok o) : environment.Says key (Means words) o := by
  rw [read] at hread
  split at hread
  next hnone =>
    obtain rfl := Except.ok.inj hread
    exact .unset (text?_eq_none_iff.1 hnone)
  next text htext =>
    rcases hparse : parse text with e | meaning
    · rw [hparse] at hread
      cases hread
    · rw [hparse] at hread
      obtain rfl := Except.ok.inj hread
      exact .set (text?_eq_some_iff.1 htext) (h.ok_iff.1 hparse)

/-- A variable is refused exactly if it is set to a text that is no word. -/
theorem read_eq_error_iff (h : ReadsWords words parse fault) {e : Error} :
    environment.read key parse = .error e ↔
      ∃ text, environment.Misses key words text ∧ e = fault text := by
  constructor
  · intro hread
    rw [read] at hread
    split at hread
    next => cases hread
    next text htext =>
      rcases hparse : parse text with error | meaning
      · rw [hparse] at hread
        obtain rfl := Except.error.inj hread
        refine ⟨text, ⟨text?_eq_some_iff.1 htext, fun meaning hmeans ↦ ?_⟩, h.error_eq hparse⟩
        rw [← h.ok_iff, hparse] at hmeans
        cases hmeans
      · rw [hparse] at hread
        cases hread
  · rintro ⟨text, ⟨hset, hnone⟩, rfl⟩
    rw [read, text?_eq_some_iff.2 hset]
    dsimp only
    rcases hparse : parse text with error | meaning
    · rw [h.error_eq hparse]
      rfl
    · exact absurd (h.ok_iff.1 hparse) (hnone meaning)

end Reading

theorem says_of_boolean {o : Option Bool} (h : environment.boolean key = .ok o) :
    environment.Says key (Means flagWords) o :=
  says_of_read (readsWords_flagOf key) (boolean_eq_read ▸ h)

theorem says_of_logFormat {o : Option LogFormat} (h : environment.logFormat key = .ok o) :
    environment.Says key (Means LogFormat.words) o :=
  says_of_read readsWords_parse (logFormat_eq_read ▸ h)

/-- A variable that may hold any text says that text. -/
theorem says_text? (environment : Environment) (key : String) :
    environment.Says key Eq (environment.text? key) := by
  rcases htext : environment.text? key with - | text
  · exact .unset (text?_eq_none_iff.1 htext)
  · exact .set (text?_eq_some_iff.1 htext) rfl

theorem boolean_eq_error_iff {e : Error} :
    environment.boolean key = .error e ↔
      ∃ text, environment.Misses key flagWords text ∧ e = .notBoolean key text := by
  rw [boolean_eq_read, read_eq_error_iff (readsWords_flagOf key)]

theorem logFormat_eq_error_iff {e : Error} :
    environment.logFormat key = .error e ↔
      ∃ text, environment.Misses key LogFormat.words text ∧
        e = .unknownLogFormat text.toLower := by
  rw [logFormat_eq_read, read_eq_error_iff readsWords_parse]

end Environment

/-! ### Files -/

namespace FileState

variable {state : FileState} {layer : Layer}

/-- The layer that a file gives: an empty one if it is missing, and otherwise the one in its text. -/
inductive Gives : FileState → Layer → Prop
  | missing : Gives .missing {}
  | file {text : String} {layer : Layer} (h : Layer.ofText? text = some layer) :
      Gives (.file text.toUTF8) layer

/-- There is something else than a text. -/
inductive Unreadable : FileState → Prop
  | directory : Unreadable .directory
  | file {octets : ByteArray} (h : ∀ text : String, octets ≠ text.toUTF8) :
      Unreadable (.file octets)

/-- There is a text that holds no layer. -/
inductive Malformed : FileState → Prop
  | file {text : String} (h : Layer.ofText? text = none) : Malformed (.file text.toUTF8)

theorem layer_eq_ok_iff : state.layer = .ok layer ↔ state.Gives layer := by
  constructor
  · intro h
    rw [FileState.layer.eq_def] at h
    split at h
    next =>
      obtain rfl := Except.ok.inj h
      exact .missing
    next => cases h
    next octets =>
      split at h
      next => cases h
      next text htext =>
        split at h
        next => cases h
        next layer hlayer =>
          obtain rfl := Except.ok.inj h
          rw [fromUTF8?_eq_some_iff.1 htext]
          exact .file hlayer
  · rintro (- | h)
    · rfl
    · rw [FileState.layer, fromUTF8?_eq_some_iff.2 rfl]
      simp only [h]

theorem layer_eq_error_iff {e : Error} :
    state.layer = .error e ↔
      (state.Unreadable ∧ e = .unreadableFile) ∨ (state.Malformed ∧ e = .malformedFile) := by
  constructor
  · intro h
    rw [FileState.layer.eq_def] at h
    split at h
    next => cases h
    next => exact .inl ⟨.directory, (Except.error.inj h).symm⟩
    next octets =>
      split at h
      next hnone =>
        refine .inl ⟨.file fun text htext ↦ ?_, (Except.error.inj h).symm⟩
        cases (fromUTF8?_eq_some_iff.2 htext).symm.trans hnone
      next text htext =>
        split at h
        next hlayer =>
          rw [fromUTF8?_eq_some_iff.1 htext]
          exact .inr ⟨.file hlayer, (Except.error.inj h).symm⟩
        next => cases h
  · rintro (⟨- | h, rfl⟩ | ⟨h, rfl⟩)
    · rfl
    · rw [FileState.layer]
      rcases htext : String.fromUTF8? _ with - | text
      · rfl
      · exact absurd (fromUTF8?_eq_some_iff.1 htext) (h text)
    · rcases h with ⟨h⟩
      rw [FileState.layer, fromUTF8?_eq_some_iff.2 rfl]
      simp only [h]

end FileState

/-! ### What loading comes to -/

/-- What can be wrong with a file and the environment, whatever else is wrong. -/
inductive Fault (state : FileState) (environment : Environment) : Error → Prop
  /-- Where the file may be there is something else than a text. -/
  | unreadableFile (h : state.Unreadable) : Fault state environment .unreadableFile
  /-- The file holds no layer. -/
  | malformedFile (h : state.Malformed) : Fault state environment .malformedFile
  /-- The log format is none that there is. -/
  | logFormat {text : String}
      (h : environment.Misses "ESPOWER_LOADER_LOG_FORMAT" LogFormat.words text) :
      Fault state environment (.unknownLogFormat text.toLower)
  /-- Whether there are source maps is neither yes nor no. -/
  | sourcemaps {text : String}
      (h : environment.Misses "ESPOWER_LOADER_SOURCEMAPS" flagWords text) :
      Fault state environment (.notBoolean "ESPOWER_LOADER_SOURCEMAPS" text)
  /-- Whether sources are embedded is neither yes nor no. -/
  | sourcesContent {text : String}
      (h : environment.Misses "ESPOWER_LOADER_SOURCES_CONTENT" flagWords text) :
      Fault state environment (.notBoolean "ESPOWER_LOADER_SOURCES_CONTENT" text)

/-- The stage at which a fault is found: the file is looked at first, then the log format, then
whether there are source maps, and whether sources are embedded last. -/
def Error.stage : Error → Nat
  | unreadableFile => 0
  | malformedFile => 0
  | unknownLogFormat _ => 1
  | notBoolean key _ => if key = "ESPOWER_LOADER_SOURCEMAPS" then 2 else 3

/-- What an option comes to, given the variable for it, what the file sets it to, and its default. -/
inductive Chosen {α : Type} (environment : Environment) (key : String) (means : String → α → Prop)
    (file? : Option α) (fallback : α) : α → Prop
  /-- The variable is set, and the option is what that means. -/
  | byVariable {text : String} {value : α} (hset : environment.Sets key text)
      (hmeans : means text value) : Chosen environment key means file? fallback value
  /-- The variable is not set, but the file sets the option. -/
  | byFile {value : α} (hunset : ∀ text, ¬ environment.Sets key text) (hfile : file? = some value) :
      Chosen environment key means file? fallback value
  /-- Neither sets the option, and it takes its default. -/
  | byDefault (hunset : ∀ text, ¬ environment.Sets key text) (hfile : file? = none) :
      Chosen environment key means file? fallback fallback

/-- A configuration is what the variables, the layer of a file and the defaults make of each option by
itself. -/
structure ChosenAll (environment : Environment) (file : Layer) (config : Config) : Prop where
  sourcemaps : Chosen environment "ESPOWER_LOADER_SOURCEMAPS" (Means flagWords) file.sourcemaps
    true config.sourcemaps
  sourcesContent : Chosen environment "ESPOWER_LOADER_SOURCES_CONTENT" (Means flagWords)
    file.sourcesContent true config.sourcesContent
  level : Chosen environment "ESPOWER_LOADER_LOG_LEVEL" Eq file.level? "info" config.logging.level
  format : Chosen environment "ESPOWER_LOADER_LOG_FORMAT" (Means LogFormat.words) file.format?
    .compact config.logging.format

/-- The variables that have a say. -/
def optionKeys : List String :=
  ["ESPOWER_LOADER_SOURCEMAPS", "ESPOWER_LOADER_SOURCES_CONTENT", "ESPOWER_LOADER_LOG_LEVEL",
    "ESPOWER_LOADER_LOG_FORMAT"]

section Outcome

variable {α : Type} {state : FileState} {environment : Environment} {key : String}
  {means : String → α → Prop} {file? : Option α} {fallback value : α} {config : Config} {e : Error}

/-- What a variable says, or else the file, or else the default. -/
theorem Environment.Says.chosen {o : Option α} (h : environment.Says key means o) :
    Chosen environment key means file? fallback ((o.or file?).getD fallback) := by
  cases h with
  | set hset hmeans => exact .byVariable hset hmeans
  | unset hunset =>
    rw [Option.none_or]
    rcases hfile : file? with - | value
    · exact .byDefault hunset rfl
    · exact .byFile hunset rfl

theorem Environment.Sets.unique {text text' : String} (h : environment.Sets key text)
    (h' : environment.Sets key text') : text = text' := by
  have hoctets := Option.some.inj (h.1.symm.trans h'.1)
  rw [String.toUTF8_eq_toByteArray, String.toUTF8_eq_toByteArray] at hoctets
  exact String.toByteArray_inj.1 hoctets

theorem Chosen.unique {value' : α} (h : Chosen environment key means file? fallback value)
    (h' : Chosen environment key means file? fallback value')
    (hmeans : ∀ {text v v'}, means text v → means text v' → v = v') : value = value' := by
  cases h with
  | byVariable hset hvalue =>
    cases h' with
    | byVariable hset' hvalue' => exact hmeans hvalue (hset.unique hset' ▸ hvalue')
    | byFile hunset => exact absurd hset (hunset _)
    | byDefault hunset => exact absurd hset (hunset _)
  | byFile hunset hfile =>
    cases h' with
    | byVariable hset => exact absurd hset (hunset _)
    | byFile _ hfile' => exact Option.some.inj (hfile.symm.trans hfile')
    | byDefault _ hfile' => cases hfile.symm.trans hfile'
  | byDefault hunset hfile =>
    cases h' with
    | byVariable hset => exact absurd hset (hunset _)
    | byFile _ hfile' => cases hfile.symm.trans hfile'
    | byDefault => rfl

theorem ChosenAll.unique {file : Layer} {config' : Config} (h : ChosenAll environment file config)
    (h' : ChosenAll environment file config') : config = config' := by
  obtain ⟨sourcemaps, sourcesContent, level, format⟩ := config
  obtain ⟨sourcemaps', sourcesContent', level', format'⟩ := config'
  have hflag := readsWords_flagOf "ESPOWER_LOADER_SOURCEMAPS"
  obtain rfl := h.sourcemaps.unique h'.sourcemaps hflag.means_unique
  obtain rfl := h.sourcesContent.unique h'.sourcesContent hflag.means_unique
  obtain rfl := h.level.unique h'.level fun hvalue hvalue' ↦ hvalue.symm.trans hvalue'
  obtain rfl := h.format.unique h'.format readsWords_parse.means_unique
  rfl

/-! ### Readings in order -/

/-- The layer that variables make, given what they say. -/
def layerOf (sourcemaps sourcesContent : Option Bool) (level : Option String)
    (format : Option LogFormat) : Layer where
  sourcemaps := sourcemaps
  sourcesContent := sourcesContent
  logging := if level.isSome || format.isSome then some ⟨level, format⟩ else none

theorem level?_layerOf (sourcemaps sourcesContent : Option Bool) (level : Option String)
    (format : Option LogFormat) :
    (layerOf sourcemaps sourcesContent level format).level? = level := by
  cases level <;> cases format <;> rfl

theorem format?_layerOf (sourcemaps sourcesContent : Option Bool) (level : Option String)
    (format : Option LogFormat) :
    (layerOf sourcemaps sourcesContent level format).format? = format := by
  cases level <;> cases format <;> rfl

/-- The file is read first, and then the variables in turn. -/
theorem loadWithFile_eq (state : FileState) (environment : Environment) :
    loadWithFile state environment = do
      let file ← state.layer
      let format ← environment.logFormat "ESPOWER_LOADER_LOG_FORMAT"
      let sourcemaps ← environment.boolean "ESPOWER_LOADER_SOURCEMAPS"
      let sourcesContent ← environment.boolean "ESPOWER_LOADER_SOURCES_CONTENT"
      return (file.merge (layerOf sourcemaps sourcesContent
        (environment.text? "ESPOWER_LOADER_LOG_LEVEL") format)).resolve := by
  have horder : inOrder [.defaults, .configFile state, .environment environment defaultStem] =
      [.defaults, .configFile state, .environment environment defaultStem] := by
    rw [inOrder_eq_flatMap]
    rfl
  have hlayer : environment.layer defaultStem = do
      let format ← environment.logFormat "ESPOWER_LOADER_LOG_FORMAT"
      let sourcemaps ← environment.boolean "ESPOWER_LOADER_SOURCEMAPS"
      let sourcesContent ← environment.boolean "ESPOWER_LOADER_SOURCES_CONTENT"
      return layerOf sourcemaps sourcesContent (environment.text? "ESPOWER_LOADER_LOG_LEVEL")
        format := rfl
  rw [loadWithFile, loadFrom, horder]
  simp only [mergeLayers, Source.defaults, Source.configFile, Source.environment, hlayer,
    Layer.empty_merge]
  rcases state.layer with e | file
  · rfl
  · rcases environment.logFormat "ESPOWER_LOADER_LOG_FORMAT" with e | format
    · rfl
    · rcases environment.boolean "ESPOWER_LOADER_SOURCEMAPS" with e | sourcemaps
      · rfl
      · rcases environment.boolean "ESPOWER_LOADER_SOURCES_CONTENT" with e | sourcesContent <;> rfl

/-- Why a reading failed, if it did. -/
def failure? : Except Error α → Option Error
  | .ok _ => none
  | .error e => some e

theorem failure?_eq_some_iff {read : Except Error α} : failure? read = some e ↔ read = .error e := by
  cases read <;> simp [failure?]

/-- What the readings fail for, in turn. -/
def failures (state : FileState) (environment : Environment) : List (Option Error) :=
  [failure? state.layer, failure? (environment.logFormat "ESPOWER_LOADER_LOG_FORMAT"),
    failure? (environment.boolean "ESPOWER_LOADER_SOURCEMAPS"),
    failure? (environment.boolean "ESPOWER_LOADER_SOURCES_CONTENT")]

/-- Loading fails as the first reading that does. -/
theorem loadWithFile_eq_error_iff :
    loadWithFile state environment = .error e ↔
      (failures state environment).findSome? id = some e := by
  have hfirst : ∀ e₀ : Error, (Except.error e₀ : Except Error Config) = .error e ↔ some e₀ = some e :=
    fun e₀ ↦ by rw [Except.error.injEq, Option.some.injEq]
  rw [loadWithFile_eq, failures]
  rcases state.layer with e₀ | file
  · exact hfirst e₀
  · rcases environment.logFormat "ESPOWER_LOADER_LOG_FORMAT" with e₀ | format
    · exact hfirst e₀
    · rcases environment.boolean "ESPOWER_LOADER_SOURCEMAPS" with e₀ | sourcemaps
      · exact hfirst e₀
      · rcases environment.boolean "ESPOWER_LOADER_SOURCES_CONTENT" with e₀ | sourcesContent
        · exact hfirst e₀
        · exact iff_of_false (fun h ↦ by cases h) (Option.some_ne_none e).symm

/-- The faults are what the readings fail for. -/
theorem fault_iff : Fault state environment e ↔ some e ∈ failures state environment := by
  simp only [failures, List.mem_cons, List.not_mem_nil, or_false, eq_comm (a := some e),
    failure?_eq_some_iff, FileState.layer_eq_error_iff, Environment.logFormat_eq_error_iff,
    Environment.boolean_eq_error_iff]
  constructor
  · rintro (h | h | h | h | h)
    · exact .inl (.inl ⟨h, rfl⟩)
    · exact .inl (.inr ⟨h, rfl⟩)
    · exact .inr (.inl ⟨_, h, rfl⟩)
    · exact .inr (.inr (.inl ⟨_, h, rfl⟩))
    · exact .inr (.inr (.inr ⟨_, h, rfl⟩))
  · rintro ((⟨h, rfl⟩ | ⟨h, rfl⟩) | ⟨_, h, rfl⟩ | ⟨_, h, rfl⟩ | ⟨_, h, rfl⟩)
    · exact .unreadableFile h
    · exact .malformedFile h
    · exact .logFormat h
    · exact .sourcemaps h
    · exact .sourcesContent h

/-- Each reading fails at the stage of its place. -/
theorem stage_of_getElem? (n : Nat) (h : (failures state environment)[n]? = some (some e)) :
    e.stage = n := by
  match n, h with
  | 0, h =>
    rcases FileState.layer_eq_error_iff.1 (failure?_eq_some_iff.1 (Option.some.inj h)) with
      ⟨-, rfl⟩ | ⟨-, rfl⟩ <;> rfl
  | 1, h =>
    obtain ⟨text, -, rfl⟩ :=
      Environment.logFormat_eq_error_iff.1 (failure?_eq_some_iff.1 (Option.some.inj h))
    rfl
  | 2, h =>
    obtain ⟨text, -, rfl⟩ :=
      Environment.boolean_eq_error_iff.1 (failure?_eq_some_iff.1 (Option.some.inj h))
    rfl
  | 3, h =>
    obtain ⟨text, -, rfl⟩ :=
      Environment.boolean_eq_error_iff.1 (failure?_eq_some_iff.1 (Option.some.inj h))
    rfl

/-- A fault stands at the place of its stage. -/
theorem Fault.getElem?_failures (h : Fault state environment e) :
    (failures state environment)[e.stage]? = some (some e) := by
  obtain ⟨n, hn⟩ := List.mem_iff_getElem?.1 (fault_iff.1 h)
  rwa [stage_of_getElem? n hn]

/-- Loading fails for the fault of the earliest stage. -/
theorem loadWithFile_eq_error_iff_earliest :
    loadWithFile state environment = .error e ↔
      Fault state environment e ∧ ∀ e', Fault state environment e' → e.stage ≤ e'.stage := by
  rw [loadWithFile_eq_error_iff, List.findSome?_eq_some_iff]
  constructor
  · rintro ⟨before, failure, after, hsplit, rfl, hbefore⟩
    have hfault : Fault state environment e := by
      rw [fault_iff, hsplit]
      exact List.mem_append_right _ List.mem_cons_self
    have hplace : (failures state environment)[before.length]? = some (some e) := by
      rw [hsplit, List.getElem?_append_right (Nat.le_refl _), Nat.sub_self]
      rfl
    refine ⟨hfault, fun e' h' ↦ Nat.le_of_not_lt fun hlt ↦ ?_⟩
    have hearlier := h'.getElem?_failures
    rw [stage_of_getElem? _ hplace] at hlt
    rw [hsplit, List.getElem?_append_left hlt] at hearlier
    cases hbefore _ (List.mem_of_getElem? hearlier)
  · rintro ⟨hfault, hearliest⟩
    obtain ⟨hlt, hplace⟩ := List.getElem?_eq_some_iff.1 hfault.getElem?_failures
    refine ⟨(failures state environment).take e.stage, some e,
      (failures state environment).drop (e.stage + 1), ?_, rfl, fun failure hfailure ↦ ?_⟩
    · rw [← hplace, ← List.drop_eq_getElem_cons hlt, List.take_append_drop]
    · rcases failure with - | e'
      · rfl
      · -- a failure at an earlier place is a fault of an earlier stage
        obtain ⟨n, hn⟩ := List.mem_iff_getElem?.1 hfailure
        rw [List.getElem?_take] at hn
        split at hn
        next hbefore =>
          have hle := hearliest e' (fault_iff.2 (List.mem_of_getElem? hn))
          rw [stage_of_getElem? n hn] at hle
          exact absurd hbefore (Nat.not_lt.2 hle)
        next => cases hn

/-- Loading succeeds if every reading does. -/
theorem loadWithFile_eq_ok_iff :
    loadWithFile state environment = .ok config ↔
      ∃ file format sourcemaps sourcesContent,
        state.layer = .ok file ∧
        environment.logFormat "ESPOWER_LOADER_LOG_FORMAT" = .ok format ∧
        environment.boolean "ESPOWER_LOADER_SOURCEMAPS" = .ok sourcemaps ∧
        environment.boolean "ESPOWER_LOADER_SOURCES_CONTENT" = .ok sourcesContent ∧
        (file.merge (layerOf sourcemaps sourcesContent
          (environment.text? "ESPOWER_LOADER_LOG_LEVEL") format)).resolve = config := by
  rw [loadWithFile_eq]
  constructor
  · rcases state.layer with e | file
    · exact fun h ↦ by cases h
    · rcases environment.logFormat "ESPOWER_LOADER_LOG_FORMAT" with e | format
      · exact fun h ↦ by cases h
      · rcases environment.boolean "ESPOWER_LOADER_SOURCEMAPS" with e | sourcemaps
        · exact fun h ↦ by cases h
        · rcases environment.boolean "ESPOWER_LOADER_SOURCES_CONTENT" with e | sourcesContent
          · exact fun h ↦ by cases h
          · exact fun h ↦
              ⟨file, format, sourcemaps, sourcesContent, rfl, rfl, rfl, rfl, Except.ok.inj h⟩
  · rintro ⟨file, format, sourcemaps, sourcesContent, hfile, hformat, hmaps, hcontents, rfl⟩
    rw [hfile, hformat, hmaps, hcontents]
    rfl

/-- What is read from the variables over the layer of the file is chosen for each option by
itself. -/
theorem chosenAll_resolve {file : Layer} {format : Option LogFormat}
    {sourcemaps sourcesContent : Option Bool}
    (hformat : environment.logFormat "ESPOWER_LOADER_LOG_FORMAT" = .ok format)
    (hmaps : environment.boolean "ESPOWER_LOADER_SOURCEMAPS" = .ok sourcemaps)
    (hcontents : environment.boolean "ESPOWER_LOADER_SOURCES_CONTENT" = .ok sourcesContent) :
    ChosenAll environment file (file.merge (layerOf sourcemaps sourcesContent
      (environment.text? "ESPOWER_LOADER_LOG_LEVEL") format)).resolve where
  sourcemaps := (Environment.says_of_boolean hmaps).chosen
  sourcesContent := (Environment.says_of_boolean hcontents).chosen
  level := by
    rw [Layer.level_resolve, isOption_level.merge, level?_layerOf]
    exact (environment.says_text? _).chosen
  format := by
    rw [Layer.format_resolve, isOption_format.merge, format?_layerOf]
    exact (Environment.says_of_logFormat hformat).chosen

/-- A configuration is loaded exactly if nothing is wrong and each option of it is chosen by
itself. -/
theorem loadWithFile_eq_ok_iff_chosenAll :
    loadWithFile state environment = .ok config ↔
      (∀ e, ¬ Fault state environment e) ∧
        ∃ file, state.Gives file ∧ ChosenAll environment file config := by
  constructor
  · rw [loadWithFile_eq_ok_iff]
    rintro ⟨file, format, sourcemaps, sourcesContent, hfile, hformat, hmaps, hcontents, rfl⟩
    refine ⟨fun e h ↦ ?_, file, FileState.layer_eq_ok_iff.1 hfile,
      chosenAll_resolve hformat hmaps hcontents⟩
    rw [fault_iff, failures, hfile, hformat, hmaps, hcontents] at h
    simp [failure?] at h
  · rintro ⟨hsound, file, hfile, hchosen⟩
    rcases hload : loadWithFile state environment with e | config'
    · exact absurd (loadWithFile_eq_error_iff_earliest.1 hload).1 (hsound e)
    · obtain ⟨file', format, sourcemaps, sourcesContent, hfile', hformat, hmaps, hcontents, rfl⟩ :=
        loadWithFile_eq_ok_iff.1 hload
      rw [FileState.layer_eq_ok_iff.2 hfile] at hfile'
      obtain rfl := Except.ok.inj hfile'
      rw [(chosenAll_resolve hformat hmaps hcontents).unique hchosen]

end Outcome

/-- A configuration is loaded exactly if nothing is wrong with the file and the environment, and then
each option by itself is what its variable says, or else the file, or else its default. Loading fails
exactly if something is wrong, and for the fault of the earliest stage. No other variable has a
say. -/
theorem loadWithFile_determined_by_choices (state : FileState) (environment : Environment) :
    (∀ config, loadWithFile state environment = .ok config ↔
      (∀ e, ¬ Fault state environment e) ∧
        ∃ file, state.Gives file ∧ ChosenAll environment file config) ∧
    ((∃ e, loadWithFile state environment = .error e) ↔ ∃ e, Fault state environment e) ∧
    (∀ e, loadWithFile state environment = .error e ↔
      Fault state environment e ∧ ∀ e', Fault state environment e' → e.stage ≤ e'.stage) ∧
    ∀ other : Environment, (∀ key ∈ optionKeys, other key = environment key) →
      loadWithFile state other = loadWithFile state environment := by
  refine ⟨fun _ ↦ loadWithFile_eq_ok_iff_chosenAll, ⟨fun ⟨e, h⟩ ↦ ?_, fun ⟨e, h⟩ ↦ ?_⟩,
    fun _ ↦ loadWithFile_eq_error_iff_earliest, fun other h ↦ ?_⟩
  · exact ⟨e, (loadWithFile_eq_error_iff_earliest.1 h).1⟩
  · rcases hload : loadWithFile state environment with e | config
    · exact ⟨e, rfl⟩
    · exact absurd h ((loadWithFile_eq_ok_iff_chosenAll.1 hload).1 e)
  · have htext : ∀ key ∈ optionKeys, other.text? key = environment.text? key :=
      fun key hkey ↦ by rw [Environment.text?, Environment.text?, h key hkey]
    simp only [optionKeys, List.forall_mem_cons] at htext
    obtain ⟨hmaps, hcontents, hlevel, hformat, -⟩ := htext
    rw [loadWithFile_eq, loadWithFile_eq]
    simp only [Environment.logFormat, Environment.boolean, hmaps, hcontents, hlevel, hformat]

/-- An environment in which the given variables are set. -/
def environmentOf (entries : List (String × String)) : Environment :=
  fun key ↦ (entries.lookup key).map String.toUTF8

/-- A file that sets two of the options. -/
def sampleFile : FileState :=
  .file "sources_content = false\n[logging]\nlevel = \"warn\"\n".toUTF8

/-- Two variables that are set, and one that is empty. -/
def sampleEntries : List (String × String) :=
  [("ESPOWER_LOADER_SOURCEMAPS", "No"), ("ESPOWER_LOADER_LOG_LEVEL", ""),
    ("ESPOWER_LOADER_LOG_FORMAT", "PRETTY")]

/-- Two variables that are no words of their vocabularies. -/
def refusedEntries : List (String × String) :=
  [("ESPOWER_LOADER_SOURCEMAPS", "maybe"), ("ESPOWER_LOADER_LOG_FORMAT", "XML")]

theorem layer_sampleFile : sampleFile.layer = .ok ⟨none, some false, some ⟨some "warn", none⟩⟩ := by
  decide +kernel

theorem loadWithFile_sampleEntries :
    loadWithFile sampleFile (environmentOf sampleEntries) =
      .ok ⟨false, false, ⟨"warn", .pretty⟩⟩ := by
  rw [loadWithFile_eq, layer_sampleFile]
  decide +kernel

theorem loadWithFile_refusedEntries :
    loadWithFile sampleFile (environmentOf refusedEntries) = .error (.unknownLogFormat "xml") := by
  rw [loadWithFile_eq, layer_sampleFile]
  decide +kernel

theorem boolean_refusedEntries :
    (environmentOf refusedEntries).boolean "ESPOWER_LOADER_SOURCEMAPS" =
      .error (.notBoolean "ESPOWER_LOADER_SOURCEMAPS" "maybe") := by
  decide +kernel

/-- Two options come from the variables and two from the file, whatever else is set; and of two
variables that are no words the one for the log format is refused. -/
theorem loadWithFile_sampleFile :
    (∀ key ∈ optionKeys, environmentOf (("RUST_LOG", "trace") :: sampleEntries) key =
        environmentOf sampleEntries key) ∧
      loadWithFile sampleFile (environmentOf (("RUST_LOG", "trace") :: sampleEntries)) =
        .ok ⟨false, false, ⟨"warn", .pretty⟩⟩ ∧
      (∃ file, sampleFile.Gives file ∧
        ChosenAll (environmentOf sampleEntries) file ⟨false, false, ⟨"warn", .pretty⟩⟩) ∧
      loadWithFile sampleFile (environmentOf refusedEntries) = .error (.unknownLogFormat "xml") ∧
      Fault sampleFile (environmentOf refusedEntries) (.unknownLogFormat "xml") ∧
      Fault sampleFile (environmentOf refusedEntries)
        (.notBoolean "ESPOWER_LOADER_SOURCEMAPS" "maybe") := by
  have hkeys : ∀ key ∈ optionKeys, environmentOf (("RUST_LOG", "trace") :: sampleEntries) key =
      environmentOf sampleEntries key := by
    simp only [optionKeys, List.forall_mem_cons]
    exact ⟨rfl, rfl, rfl, rfl, List.forall_mem_nil _⟩
  obtain ⟨hok, -, -, hother⟩ :=
    loadWithFile_determined_by_choices sampleFile (environmentOf sampleEntries)
  obtain ⟨-, -, herror, -⟩ :=
    loadWithFile_determined_by_choices sampleFile (environmentOf refusedEntries)
  refine ⟨hkeys, (hother _ hkeys).trans loadWithFile_sampleEntries,
    ((hok _).1 loadWithFile_sampleEntries).2, loadWithFile_refusedEntries,
    ((herror _).1 loadWithFile_refusedEntries).1, fault_iff.2 ?_⟩
  rw [failures, boolean_refusedEntries]
  exact List.mem_cons_of_mem _ (List.mem_cons_of_mem _ List.mem_cons_self)

end SourceChain.Config
