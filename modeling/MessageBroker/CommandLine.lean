import MessageBroker.NumberTexts

namespace MessageBroker.CommandLine

open ByteStrings NumberTexts

/-- The configuration, but for the update interval of the metrics, which no option sets. -/
structure Config where
  port : ℤ := 5555
  dbPath : Bytes := ascii "./broker.db"
  threads : ℤ := 0
  logLevel : Bytes := ascii "info"
  sessionTimeout : ℤ := 60
  ackTimeout : ℤ := 30
  enableMetrics : Bool := true
  metricsBindAddress : Bytes := ascii "0.0.0.0:8080"
deriving DecidableEq

inductive Setting
  | port
  | dbPath
  | threads
  | logLevel
  | sessionTimeout
  | ackTimeout
  | metricsAddress
deriving DecidableEq

inductive ArgError
  | helpRequested
  | configError (message : Bytes)
  | conversion (e : ConversionError)
deriving DecidableEq

namespace Setting

def flag : Setting → Bytes
  | .port => ascii "--port"
  | .dbPath => ascii "--db-path"
  | .threads => ascii "--threads"
  | .logLevel => ascii "--log-level"
  | .sessionTimeout => ascii "--session-timeout"
  | .ackTimeout => ascii "--ack-timeout"
  | .metricsAddress => ascii "--metrics-address"

@[reducible] def Value : Setting → Type
  | .port | .threads | .sessionTimeout | .ackTimeout => ℤ
  | .dbPath | .logLevel | .metricsAddress => Bytes

/-- The conversion of the C++ library to `int`. -/
def stoi (s : Bytes) : Except ArgError ℤ := (toSigned (-2 ^ 31) (2 ^ 31 - 1) s).mapError .conversion

def convert : (s : Setting) → Bytes → Except ArgError s.Value
  | .port, text | .threads, text | .sessionTimeout, text | .ackTimeout, text => stoi text
  | .dbPath, text | .logLevel, text | .metricsAddress, text => .ok text

def get : (s : Setting) → Config → s.Value
  | .port, c => c.port
  | .dbPath, c => c.dbPath
  | .threads, c => c.threads
  | .logLevel, c => c.logLevel
  | .sessionTimeout, c => c.sessionTimeout
  | .ackTimeout, c => c.ackTimeout
  | .metricsAddress, c => c.metricsBindAddress

def set : (s : Setting) → s.Value → Config → Config
  | .port, x, c => { c with port := x }
  | .dbPath, x, c => { c with dbPath := x }
  | .threads, x, c => { c with threads := x }
  | .logLevel, x, c => { c with logLevel := x }
  | .sessionTimeout, x, c => { c with sessionTimeout := x }
  | .ackTimeout, x, c => { c with ackTimeout := x }
  | .metricsAddress, x, c => { c with metricsBindAddress := x }

end Setting

/-- In the order in which `parseArgs` compares them. -/
def settings : List Setting :=
  [.port, .dbPath, .threads, .logLevel, .sessionTimeout, .ackTimeout, .metricsAddress]

def help : Bytes := ascii "--help"
def disableMetrics : Bytes := ascii "--disable-metrics"

/-- An option that takes a value is unknown where no argument follows it. -/
def parseLoop (config : Config) : List Bytes → Except ArgError Config
  | [] => .ok config
  | arg :: rest =>
    if arg = help then .error .helpRequested
    else match settings.find? (·.flag = arg), rest with
      | some s, text :: rest =>
        match s.convert text with
        | .error e => .error e
        | .ok x => parseLoop (s.set x config) rest
      | _, rest =>
        if arg = disableMetrics then parseLoop { config with enableMetrics := false } rest
        else .error (.configError (ascii "Unknown option: " ++ arg))

/-- Without a number of threads there is one for each core, or just one. -/
def Config.withThreads (cores : ℕ) (config : Config) : Config :=
  if config.threads = 0 then { config with threads := if cores = 0 then 1 else cores } else config

/-- The arguments after the name of the program. They are C strings, so those
that the program is given hold no NUL byte. -/
def parseArgs (cores : ℕ) (args : List Bytes) : Except ArgError Config :=
  (parseLoop {} args).map (·.withThreads cores)

/-- What a well-formed command line consists of. -/
inductive Item
  | assign (s : Setting) (text : Bytes)
  | disableMetrics
deriving DecidableEq

namespace Item

def args : Item → List Bytes
  | .assign s text => [s.flag, text]
  | .disableMetrics => [CommandLine.disableMetrics]

def apply (config : Config) : Item → Except ArgError Config
  | .assign s text => (s.convert text).map (s.set · config)
  | .disableMetrics => .ok { config with enableMetrics := false }

/-- The text of the option can be converted. -/
def Valid : Item → Prop
  | .assign s text => ∃ x, s.convert text = .ok x
  | .disableMetrics => True

end Item

variable {s s' : Setting} {c c' config : Config} {args rest : List Bytes} {arg text : Bytes}
  {items : List Item} {item : Item} {e : ArgError} {cores : ℕ}

theorem Setting.flag_ne (s : Setting) : s.flag ≠ help ∧ s.flag ≠ disableMetrics := by
  cases s <;> decide

theorem find?_flag (s : Setting) : settings.find? (·.flag = s.flag) = some s := by
  cases s <;> decide

theorem find?_eq_some (h : settings.find? (·.flag = arg) = some s) : arg = s.flag := by
  have hflag := List.find?_some h
  exact (of_decide_eq_true hflag).symm

theorem find?_eq_none (h : settings.find? (·.flag = arg) = none) : arg ≠ s.flag := by
  rintro rfl
  rw [find?_flag] at h
  cases h

theorem find?_disableMetrics : settings.find? (·.flag = disableMetrics) = none := by decide

@[simp] theorem Setting.get_set (s : Setting) (x : s.Value) : s.get (s.set x c) = x := by
  cases s <;> rfl

theorem Setting.get_set_ne (h : s' ≠ s) (x : s.Value) : s'.get (s.set x c) = s'.get c := by
  cases s <;> cases s' <;> first | rfl | exact absurd rfl h

@[simp] theorem Setting.enableMetrics_set (s : Setting) (x : s.Value) :
    (s.set x c).enableMetrics = c.enableMetrics := by
  cases s <;> rfl

@[simp] theorem Setting.get_disabled (s : Setting) (b : Bool) :
    s.get { c with enableMetrics := b } = s.get c := by
  cases s <;> rfl

theorem ext_get (hmetrics : c.enableMetrics = c'.enableMetrics) (h : ∀ s : Setting, s.get c = s.get c') :
    c = c' := by
  obtain ⟨port, dbPath, threads, logLevel, sessionTimeout, ackTimeout, enableMetrics, address⟩ := c
  obtain ⟨port', dbPath', threads', logLevel', sessionTimeout', ackTimeout', enableMetrics', address'⟩ := c'
  obtain rfl : port = port' := h .port
  obtain rfl : dbPath = dbPath' := h .dbPath
  obtain rfl : threads = threads' := h .threads
  obtain rfl : logLevel = logLevel' := h .logLevel
  obtain rfl : sessionTimeout = sessionTimeout' := h .sessionTimeout
  obtain rfl : ackTimeout = ackTimeout' := h .ackTimeout
  obtain rfl : address = address' := h .metricsAddress
  obtain rfl : enableMetrics = enableMetrics' := hmetrics
  rfl

theorem parseLoop_cons (h : arg ≠ help) :
    parseLoop config (arg :: rest) = match settings.find? (·.flag = arg), rest with
    | some s, text :: rest => (s.convert text).bind fun x ↦ parseLoop (s.set x config) rest
    | _, rest =>
      if arg = disableMetrics then parseLoop { config with enableMetrics := false } rest
      else .error (.configError (ascii "Unknown option: " ++ arg)) := by
  rw [parseLoop.eq_def]
  dsimp only
  rw [if_neg h]
  cases settings.find? (·.flag = arg) with
  | none => cases rest <;> rfl
  | some s =>
    cases rest with
    | nil => rfl
    | cons text rest =>
      dsimp only
      cases s.convert text <;> rfl

theorem parseLoop_item : parseLoop config (item.args ++ rest) = (item.apply config).bind (parseLoop · rest) := by
  cases item with
  | assign s text =>
    change parseLoop config (s.flag :: text :: rest) = _
    rw [parseLoop_cons s.flag_ne.1, find?_flag]
    dsimp only [Item.apply]
    cases s.convert text <;> rfl
  | disableMetrics =>
    change parseLoop config (disableMetrics :: rest) = _
    rw [parseLoop_cons (by decide), find?_disableMetrics]
    rfl

theorem parseLoop_items :
    parseLoop config (items.flatMap Item.args ++ rest) =
      (items.foldlM Item.apply config).bind (parseLoop · rest) := by
  induction items generalizing config with
  | nil => rfl
  | cons item items ih =>
    rw [List.flatMap_cons, List.append_assoc, parseLoop_item, List.foldlM_cons]
    cases item.apply config with
    | error e => rfl
    | ok c => exact ih

inductive Stops : List Bytes → ArgError → Prop
  | help (rest : List Bytes) : Stops (help :: rest) .helpRequested
  | unreadable (s : Setting) (text : Bytes) (rest : List Bytes) (e : ArgError) : s.convert text = .error e →
      Stops (s.flag :: text :: rest) e
  | incomplete (s : Setting) : Stops [s.flag] (.configError (ascii "Unknown option: " ++ s.flag))
  | unknown (arg : Bytes) (rest : List Bytes) : arg ≠ CommandLine.help → arg ≠ disableMetrics →
      (∀ s : Setting, arg ≠ s.flag) → Stops (arg :: rest) (.configError (ascii "Unknown option: " ++ arg))

theorem parseLoop_stops (h : Stops rest e) : parseLoop config rest = .error e := by
  cases h with
  | help rest =>
    unfold parseLoop
    exact if_pos rfl
  | unreadable s text rest e he =>
    rw [parseLoop_cons s.flag_ne.1, find?_flag]
    dsimp only
    rw [he]
    rfl
  | incomplete s =>
    rw [parseLoop_cons s.flag_ne.1, find?_flag]
    exact if_neg s.flag_ne.2
  | unknown arg rest hhelp hdisable hflag =>
    have hnone : settings.find? (·.flag = arg) = none :=
      List.find?_eq_none.mpr fun s _ ↦ by simpa using Ne.symm (hflag s)
    rw [parseLoop_cons hhelp, hnone]
    exact if_neg hdisable

theorem foldlM_valid (h : ∀ item ∈ items, item.Valid) : ∃ c, items.foldlM Item.apply config = .ok c := by
  induction items generalizing config with
  | nil => exact ⟨config, rfl⟩
  | cons item items ih =>
    obtain ⟨hitem, hitems⟩ := List.forall_mem_cons.mp h
    rw [List.foldlM_cons]
    cases item with
    | assign s text =>
      obtain ⟨x, hx⟩ := hitem
      simp only [Item.apply, hx]
      exact ih hitems
    | disableMetrics => exact ih hitems

theorem exists_items : (args : List Bytes) → ∃ (items : List Item) (rest : List Bytes),
    args = items.flatMap Item.args ++ rest ∧ (∀ item ∈ items, item.Valid) ∧ (rest = [] ∨ ∃ e, Stops rest e)
  | [] => ⟨[], [], rfl, nofun, .inl rfl⟩
  | arg :: rest => by
    have stops {e : ArgError} (h : Stops (arg :: rest) e) : ∃ (items : List Item) (rest' : List Bytes),
        arg :: rest = items.flatMap Item.args ++ rest' ∧ (∀ item ∈ items, item.Valid) ∧
          (rest' = [] ∨ ∃ e, Stops rest' e) :=
      ⟨[], arg :: rest, rfl, nofun, .inr ⟨e, h⟩⟩
    by_cases hhelp : arg = help
    · subst hhelp
      exact stops (.help rest)
    · cases hfind : settings.find? (·.flag = arg) with
      | some s =>
        obtain rfl := find?_eq_some hfind
        match rest with
        | [] => exact stops (.incomplete s)
        | text :: rest =>
          cases hx : s.convert text with
          | error e => exact stops (.unreadable s text rest e hx)
          | ok x =>
            obtain ⟨items, rest', rfl, hitems, hrest⟩ := exists_items rest
            exact ⟨.assign s text :: items, rest', rfl, List.forall_mem_cons.mpr ⟨⟨x, hx⟩, hitems⟩, hrest⟩
      | none =>
        by_cases hdisable : arg = disableMetrics
        · subst hdisable
          obtain ⟨items, rest', rfl, hitems, hrest⟩ := exists_items rest
          exact ⟨.disableMetrics :: items, rest', rfl, List.forall_mem_cons.mpr ⟨trivial, hitems⟩, hrest⟩
        · exact stops (.unknown arg rest hhelp hdisable fun s ↦ find?_eq_none hfind)
  termination_by args => args.length

/-- The text that an option is given last. -/
def lastText (s : Setting) : List Item → Option Bytes
  | [] => none
  | .assign s' text :: items => (lastText s items).or (if s' = s then some text else none)
  | .disableMetrics :: items => lastText s items

/-- An option has the value of its last text, or the one that it had before. -/
def Sets (config c : Config) (items : List Item) (s : Setting) : Prop :=
  match lastText s items with
  | none => s.get c = s.get config
  | some text => s.convert text = .ok (s.get c)

theorem sets_of_foldlM (h : items.foldlM Item.apply config = .ok c) : (∀ item ∈ items, item.Valid) ∧
    c.enableMetrics = (config.enableMetrics && decide (.disableMetrics ∉ items)) ∧ ∀ s,
      Sets config c items s := by
  induction items generalizing config with
  | nil =>
    obtain rfl := Except.ok.inj h
    exact ⟨nofun, by simp, fun _ ↦ rfl⟩
  | cons item items ih =>
    rw [List.foldlM_cons] at h
    cases item with
    | disableMetrics =>
      obtain ⟨hvalid, hmetrics, hsets⟩ := ih h
      refine ⟨List.forall_mem_cons.mpr ⟨trivial, hvalid⟩, by simpa using hmetrics, fun s ↦ ?_⟩
      have hs := hsets s
      unfold Sets at hs ⊢
      rw [Setting.get_disabled (c := config) s false] at hs
      exact hs
    | assign s' text =>
      cases hx : s'.convert text with
      | error e =>
        simp only [Item.apply, hx] at h
        cases h
      | ok x =>
        simp only [Item.apply, hx] at h
        obtain ⟨hvalid, hmetrics, hsets⟩ := ih h
        refine ⟨List.forall_mem_cons.mpr ⟨⟨x, hx⟩, hvalid⟩, by simpa using hmetrics, fun s ↦ ?_⟩
        have hs := hsets s
        unfold Sets at hs ⊢
        rw [lastText]
        cases hlast : lastText s items with
        | some later =>
          rw [hlast] at hs
          exact hs
        | none =>
          rw [hlast] at hs
          rw [Option.none_or]
          by_cases hss : s' = s
          · subst hss
            rw [if_pos rfl]
            dsimp only at hs ⊢
            rw [hs, Setting.get_set, hx]
          · rw [if_neg hss]
            exact hs.trans (Setting.get_set_ne (Ne.symm hss) x)

theorem sets_unique (hc : c.enableMetrics = c'.enableMetrics) (h : ∀ s, Sets config c items s)
    (h' : ∀ s, Sets config c' items s) : c = c' := by
  refine ext_get hc fun s ↦ ?_
  have hs := h s
  have hs' := h' s
  unfold Sets at hs hs'
  cases hlast : lastText s items with
  | none =>
    rw [hlast] at hs hs'
    exact hs.trans hs'.symm
  | some text =>
    rw [hlast] at hs hs'
    exact Except.ok.inj (hs.symm.trans hs')

/-- A command line is accepted if and only if it consists of valid items; each
option has the value that it is given last. -/
theorem parseLoop_ok_iff : parseLoop config args = .ok c ↔ ∃ items : List Item, args = items.flatMap Item.args ∧
    (∀ item ∈ items, item.Valid) ∧ c.enableMetrics = (config.enableMetrics && decide (.disableMetrics ∉ items)) ∧
      ∀ s, Sets config c items s := by
  constructor
  · intro h
    obtain ⟨items, rest, rfl, hvalid, hrest⟩ := exists_items args
    obtain ⟨c', hc'⟩ : ∃ c', items.foldlM Item.apply config = .ok c' := foldlM_valid hvalid
    rw [parseLoop_items, hc'] at h
    change parseLoop c' rest = .ok c at h
    rcases hrest with rfl | ⟨e, hstops⟩
    · obtain rfl := Except.ok.inj h
      exact ⟨items, List.append_nil _, sets_of_foldlM hc'⟩
    · rw [parseLoop_stops hstops] at h
      cases h
  · rintro ⟨items, rfl, hvalid, hmetrics, hsets⟩
    obtain ⟨c', hc'⟩ : ∃ c', items.foldlM Item.apply config = .ok c' := foldlM_valid hvalid
    obtain ⟨-, hmetrics', hsets'⟩ := sets_of_foldlM hc'
    have hitems : parseLoop config (items.flatMap Item.args ++ []) = _ := parseLoop_items
    rw [List.append_nil, hc'] at hitems
    rw [hitems, sets_unique (hmetrics.trans hmetrics'.symm) hsets hsets']
    rfl

/-- A command line is rejected for the first argument that is no valid item. -/
theorem parseLoop_error_iff : parseLoop config args = .error e ↔ ∃ (items : List Item) (rest : List Bytes),
    args = items.flatMap Item.args ++ rest ∧ (∀ item ∈ items, item.Valid) ∧ Stops rest e := by
  constructor
  · intro h
    obtain ⟨items, rest, rfl, hvalid, hrest⟩ := exists_items args
    obtain ⟨c, hc⟩ : ∃ c, items.foldlM Item.apply config = .ok c := foldlM_valid hvalid
    rw [parseLoop_items, hc] at h
    change parseLoop c rest = .error e at h
    rcases hrest with rfl | ⟨e', hstops⟩
    · cases h
    · obtain rfl := Except.error.inj ((parseLoop_stops hstops).symm.trans h)
      exact ⟨items, rest, rfl, hvalid, hstops⟩
  · rintro ⟨items, rest, rfl, hvalid, hstops⟩
    obtain ⟨c, hc⟩ : ∃ c, items.foldlM Item.apply config = .ok c := foldlM_valid hvalid
    rw [parseLoop_items, hc]
    exact parseLoop_stops hstops

/-- The arguments consist of valid items, which set the configuration, and the
threads are filled in. -/
def Accepts (cores : ℕ) (args : List Bytes) (c : Config) : Prop := ∃ (items : List Item) (c' : Config),
  args = items.flatMap Item.args ∧ (∀ item ∈ items, item.Valid) ∧
    c'.enableMetrics = decide (.disableMetrics ∉ items) ∧ (∀ s, Sets {} c' items s) ∧ c = c'.withThreads cores

/-- The first argument that is no valid item is the reason for the error. -/
def Rejects (args : List Bytes) (e : ArgError) : Prop := ∃ (items : List Item) (rest : List Bytes),
  args = items.flatMap Item.args ++ rest ∧ (∀ item ∈ items, item.Valid) ∧ Stops rest e

theorem accepts_of_ok (h : parseArgs cores args = .ok c) : Accepts cores args c := by
  unfold parseArgs at h
  cases hloop : parseLoop {} args with
  | error e =>
    rw [hloop] at h
    cases h
  | ok c' =>
    rw [hloop] at h
    obtain ⟨items, hargs, hvalid, hmetrics, hsets⟩ := parseLoop_ok_iff.mp hloop
    exact ⟨items, c', hargs, hvalid, hmetrics, hsets, (Except.ok.inj h).symm⟩

theorem ok_of_accepts (h : Accepts cores args c) : parseArgs cores args = .ok c := by
  obtain ⟨items, c', hargs, hvalid, hmetrics, hsets, rfl⟩ := h
  unfold parseArgs
  rw [parseLoop_ok_iff.mpr ⟨items, hargs, hvalid, hmetrics, hsets⟩]
  rfl

/-- A command line is accepted if and only if it consists of valid items; each
option then has the value that it is given last. Otherwise it is rejected for
the first argument that belongs to no valid item. -/
theorem parseArgs_iff : (parseArgs cores args = .ok c ↔ Accepts cores args c) ∧
    (parseArgs cores args = .error e ↔ Rejects args e) := by
  have herror : parseLoop {} args = .error e ↔ Rejects args e := parseLoop_error_iff
  refine ⟨⟨accepts_of_ok, ok_of_accepts⟩, Iff.trans ?_ herror⟩
  unfold parseArgs
  cases parseLoop {} args with
  | error e' => exact Iff.rfl
  | ok c' => exact ⟨(nomatch ·), (nomatch ·)⟩

/-- The text that is written for the value of an option. -/
def Setting.render : (s : Setting) → s.Value → Bytes
  | .port, x | .threads, x | .sessionTimeout, x | .ackTimeout, x => decimal x
  | .dbPath, x | .logLevel, x | .metricsAddress, x => x

/-- The value of an option can be given as an argument: a number as an `int`, a text as a C string. -/
def Setting.Writable : (s : Setting) → s.Value → Prop
  | .port, x | .threads, x | .sessionTimeout, x | .ackTimeout, x => -2 ^ 31 ≤ x ∧ x ≤ 2 ^ 31 - 1
  | .dbPath, x | .logLevel, x | .metricsAddress, x => NulFree x

theorem Setting.convert_render {x : s.Value} (h : s.Writable x) : s.convert (s.render x) = .ok x := by
  have number {x : ℤ} (h : -2 ^ 31 ≤ x ∧ x ≤ 2 ^ 31 - 1) : stoi (decimal x) = .ok x := by
    unfold stoi
    rw [toSigned_decimal h.1 h.2]
    rfl
  cases s with
  | port | threads | sessionTimeout | ackTimeout => exact number h
  | dbPath | logLevel | metricsAddress => rfl

theorem Setting.nulFree_render {x : s.Value} (h : s.Writable x) : NulFree (s.render x) := by
  cases s with
  | port | threads | sessionTimeout | ackTimeout => exact nulFree_decimal x
  | dbPath | logLevel | metricsAddress => exact h

def renderItems (c : Config) : List Item :=
  settings.map (fun s ↦ .assign s (s.render (s.get c))) ++ if c.enableMetrics then [] else [.disableMetrics]

theorem lastText_append {items' : List Item} :
    lastText s (items ++ items') = (lastText s items').or (lastText s items) := by
  induction items with
  | nil => simp [lastText]
  | cons item items ih =>
    cases item with
    | assign s' text => simp only [List.cons_append, lastText, ih, Option.or_assoc]
    | disableMetrics => exact ih

theorem lastText_renderItems (c : Config) (s : Setting) :
    lastText s (renderItems c) = some (s.render (s.get c)) := by
  unfold renderItems
  rw [lastText_append]
  have hnone : lastText s (if c.enableMetrics then [] else [.disableMetrics]) = none := by
    split <;> rfl
  rw [hnone, Option.none_or]
  cases s <;> rfl

theorem disableMetrics_mem (c : Config) : .disableMetrics ∈ renderItems c ↔ c.enableMetrics = false := by
  unfold renderItems
  rw [List.mem_append, List.mem_map]
  constructor
  · rintro (⟨s, -, hs⟩ | h)
    · cases hs
    · split at h
      · cases h
      · next hdisabled => simpa using hdisabled
  · intro h
    rw [h]
    exact .inr List.mem_cons_self

theorem nulFree_renderItems (h : ∀ s : Setting, s.Writable (s.get c)) :
    ∀ arg ∈ (renderItems c).flatMap Item.args, NulFree arg := by
  intro arg harg
  obtain ⟨item, hitem, harg⟩ := List.mem_flatMap.mp harg
  unfold renderItems at hitem
  rcases List.mem_append.mp hitem with hitem | hitem
  · obtain ⟨s, -, rfl⟩ := List.mem_map.mp hitem
    rcases List.mem_cons.mp harg with rfl | harg
    · cases s <;> decide
    · rw [List.mem_singleton.mp harg]
      exact Setting.nulFree_render (h s)
  · split at hitem
    · cases hitem
    · rw [List.mem_singleton.mp hitem] at harg
      rw [List.mem_singleton.mp harg]
      decide

/-- Every configuration with a number of threads, whose texts hold no NUL byte,
can be given on the command line. -/
theorem parseArgs_render (h : ∀ s : Setting, s.Writable (s.get c)) (hthreads : c.threads ≠ 0) :
    (∀ arg ∈ (renderItems c).flatMap Item.args, NulFree arg) ∧
      parseArgs cores ((renderItems c).flatMap Item.args) = .ok c := by
  refine ⟨nulFree_renderItems h, ok_of_accepts ⟨renderItems c, c, rfl, fun item hitem ↦ ?_, ?_, fun s ↦ ?_,
    (if_neg hthreads).symm⟩⟩
  · cases item with
    | disableMetrics => trivial
    | assign s text =>
      unfold renderItems at hitem
      rcases List.mem_append.mp hitem with hitem | hitem
      · obtain ⟨s', -, hs'⟩ := List.mem_map.mp hitem
        cases hs'
        exact ⟨_, Setting.convert_render (h s)⟩
      · split at hitem
        · cases hitem
        · cases List.mem_singleton.mp hitem
  · cases hmetrics : c.enableMetrics with
    | false => simp [(disableMetrics_mem c).mpr hmetrics]
    | true => simp [disableMetrics_mem, hmetrics]
  · unfold Sets
    rw [lastText_renderItems]
    exact Setting.convert_render (h s)

/-- A port and a database of one's own, without metrics. -/
theorem parseArgs_render_port :
    parseArgs 8 ((renderItems
      { port := 7000, dbPath := ascii "a.db", threads := 2, enableMetrics := false }).flatMap Item.args) =
      .ok { port := 7000, dbPath := ascii "a.db", threads := 2, enableMetrics := false } := by
  refine (parseArgs_render (fun s ↦ ?_) (by decide)).2
  cases s with
  | port | threads | sessionTimeout | ackTimeout => exact ⟨by decide, by decide⟩
  | dbPath | logLevel | metricsAddress =>
    unfold Setting.Writable
    decide

end MessageBroker.CommandLine
