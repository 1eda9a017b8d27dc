import Covering.CommandLine.Request
import Covering.Proofs.Checks
import Covering.Proofs.Decimal
import Covering.Proofs.Text

/-!
# Options are read as they are written

An option with its value, written as one argument, is read back as that option
with that value, whatever the value is: it may be empty, begin with a dash or
hold another equals sign, since the name before the first equals sign has none.
So every request to validate is read from some command line, unless one of its
paths is empty or its order is no word, which no command line can say. Requests
to generate are read as well, as long as they name counts or a model and ask for
no statistics.

The two commands have different options, and what is read of them depends on
nothing but their rules. An option fits its rule when it has no more values than
the rule allows and each of them is of the right kind (`Fits`). Options that fit,
with different names, are read together (`readOptions_givenBy`), and what is left
for each command is to name them.

## Main definitions

* `optionText`, `arguments`: Options as arguments.
* `Fits`: Values that an option can be given.
* `givenBy`: The options that give values by their rules.
* `ValidateRequest.given`, `ValidateRequest.line`: The options of a request to
  validate, and a command line with them.
* `GenerateRequest.items`, `GenerateRequest.line`: The same for a request to
  generate.
* `GenerateRequest.Sayable`: Requests to generate that such a line can make.

## Theorems

* `readFrom_optionText`: One option is read.
* `readFrom_values`: An option that may be missing or repeated is read.
* `readOptions_givenBy`: All options of a command line are read.
* `ValidateRequest.ofGiven_given`, `GenerateRequest.ofGiven_givenBy`: The options
  of a request ask for it.
* `ValidateRequest.read_line`, `GenerateRequest.read_line`: Every such request is
  read from some command line.
-/

namespace Covering

namespace CommandLine

open Text

/-- An option with its value, written as one argument. -/
def optionText (name value : String) : String := "--" ++ name ++ "=" ++ value

/-- An option given with each of some values. -/
def options (name : String) (values : List String) : Given :=
  values.map fun value => (name, value)

/-- The arguments that give options with their values. -/
def arguments (given : Given) : List String :=
  given.map fun option => optionText option.1 option.2

/-- A number as a value. -/
def numberText (n : Nat) : String := String.ofList (Decimal.digits n)

section Options

variable {rules : List OptionRule} {given given' : Given} {rule : OptionRule} {value : String}
  {rest : List String}

theorem toList_optionText (name value : String) :
    (optionText name value).toList = '-' :: '-' :: (name.toList ++ '=' :: value.toList) := by
  simp only [optionText, String.toList_append, List.append_assoc]
  rfl

/-- An option with a value is nothing that has no equals sign. -/
theorem optionText_ne (name value : String) {text : String} (h : '=' ∉ text.toList) :
    optionText name value ≠ text := by
  intro heq
  rw [← heq, toList_optionText] at h
  simp only [List.mem_cons, List.mem_append, true_or, or_true, not_true_eq_false] at h

theorem optionParts?_optionText {name : String} (h : '=' ∉ name.toList) (value : String) :
    optionParts? (optionText name value) = some (name, some value) := by
  rw [optionParts?, toList_optionText]
  simp only [cut?_append h, String.ofList_toList]

/-- An option with a value is no request for help. -/
theorem asksForHelp_optionText (name value : String) :
    asksForHelp (optionText name value) = false := by
  rw [asksForHelp, Bool.or_eq_false_iff, decide_eq_false_iff_not]
  refine ⟨optionText_ne name value (by decide), ?_⟩
  rw [Bool.eq_false_iff]
  intro hstart
  -- The second character is a dash.
  rw [String.startsWith_string_iff, toList_optionText] at hstart
  exact absurd (List.cons_prefix_cons.1 (List.cons_prefix_cons.1 hstart).2).1 (by decide)

/-- An option that is given with a value is read. -/
theorem readFrom_optionText (hname : '=' ∉ rule.name.toList)
    (hrule : rules.find? (·.name == rule.name) = some rule) (hflag : rule.arity ≠ .flag)
    (hgive : give given rule value = .ok given') :
    readFrom rules given none (optionText rule.name value :: rest) =
      readFrom rules given' none rest := by
  rw [readFrom, if_neg (optionText_ne rule.name value (by decide)), asksForHelp_optionText,
    if_neg (by decide), optionParts?_optionText hname]
  simp only [hrule, hflag, if_false, hgive]

/-- A value of the right kind is given to an option that has none yet or may be
    repeated. -/
theorem give_eq_ok (hkind : rule.kind.accepts value = true)
    (hfresh : rule.arity = .many ∨ given.has rule.name = false) :
    give given rule value = .ok (given ++ [(rule.name, value)]) := by
  rw [give, hkind]
  rcases hfresh with hmany | hfresh
  · simp only [hmany, ne_eq, not_true_eq_false, decide_false, Bool.false_and, Bool.not_true,
      Bool.or_self, Bool.false_eq_true, if_false]
  · simp only [hfresh, Bool.and_false, Bool.not_true, Bool.or_self, Bool.false_eq_true, if_false]

theorem has_append (given given' : Given) (name : String) :
    (given ++ given').has name = (given.has name || given'.has name) := List.any_append

theorem has_options (name other : String) (values : List String) :
    (options other values).has name = (other == name && !values.isEmpty) := by
  induction values with
  | nil => exact (Bool.and_false _).symm
  | cons value values ih =>
      have hcons : (options other (value :: values)).has name =
          (other == name || (options other values).has name) := rfl
      rw [hcons, ih, List.isEmpty_cons, Bool.not_false, Bool.and_true]
      cases other == name <;> rfl

/-- Values that an option of a command can be given: any number of them if it
    may be repeated, and otherwise one at most. -/
structure Fits (rules : List OptionRule) (rule : OptionRule) (values : List String) : Prop where
  name : '=' ∉ rule.name.toList
  known : rules.find? (·.name == rule.name) = some rule
  arity : rule.arity = .many ∨ rule.arity = .single ∧ values.length ≤ 1
  kind : ∀ value ∈ values, rule.kind.accepts value = true

/-- A value that may be missing. -/
theorem fits_option (hname : '=' ∉ rule.name.toList)
    (hknown : rules.find? (·.name == rule.name) = some rule) (harity : rule.arity = .single)
    (value? : Option String) (hkind : ∀ value ∈ value?, rule.kind.accepts value = true) :
    Fits rules rule value?.toList :=
  ⟨hname, hknown, .inr ⟨harity, Option.length_toList_le⟩,
    fun value hvalue => hkind value (Option.mem_toList.1 hvalue)⟩

/-- Texts of an option that may be repeated. -/
theorem fits_many (hname : '=' ∉ rule.name.toList)
    (hknown : rules.find? (·.name == rule.name) = some rule) (harity : rule.arity = .many)
    (hkind : rule.kind = .anyText) (values : List String) : Fits rules rule values :=
  ⟨hname, hknown, .inl harity, fun _ _ => by rw [hkind]; rfl⟩

/-- Numbers within range are numbers. -/
theorem accepts_digits {n : Nat} (h : n < wordLimit) :
    ValueKind.number.accepts (String.ofList (Decimal.digits n)) = true := by
  rw [ValueKind.accepts, String.toList_ofList, readWord_digits h]
  rfl

/-- Paths are not empty. -/
theorem accepts_path {path : String} (h : path ≠ "") : ValueKind.path.accepts path = true := by
  rw [ValueKind.accepts, Bool.not_eq_true', Bool.eq_false_iff, ne_eq, String.isEmpty_iff]
  exact h

/-- An option that may be repeated, or has not been given yet, is read with all
    its values. -/
theorem readFrom_values {values : List String} (h : Fits rules rule values)
    (hfresh : rule.arity = .many ∨ given.has rule.name = false) :
    readFrom rules given none (arguments (options rule.name values) ++ rest) =
      readFrom rules (given ++ options rule.name values) none rest := by
  induction values generalizing given with
  | nil =>
      rw [options, List.map_nil, List.append_nil]
      rfl
  | cons value values ih =>
      have hkind := List.forall_mem_cons.1 h.kind
      have hflag : rule.arity ≠ .flag := by
        rcases h.arity with harity | ⟨harity, _⟩ <;> (rw [harity]; decide)
      have hread : readFrom rules given none
          (arguments (options rule.name (value :: values)) ++ rest) =
            readFrom rules (given ++ [(rule.name, value)]) none
              (arguments (options rule.name values) ++ rest) :=
        readFrom_optionText h.name h.known hflag (give_eq_ok hkind.1 hfresh)
      rw [hread]
      rcases h.arity with hmany | ⟨_, hlength⟩
      · rw [ih ⟨h.name, h.known, .inl hmany, hkind.2⟩ (.inl hmany), List.append_assoc]
        rfl
      · -- There are no other values.
        rw [List.length_cons] at hlength
        obtain rfl := List.length_eq_zero_iff.1 (by omega : values.length = 0)
        rfl

/-- The options that give values by their rules. -/
def givenBy (items : List (OptionRule × List String)) : Given :=
  items.flatMap fun item => options item.1.name item.2

/-- Options of different names are read with all their values. -/
theorem readFrom_givenBy {items : List (OptionRule × List String)}
    (hfits : ∀ item ∈ items, Fits rules item.1 item.2) (hdistinct : (items.map (·.1.name)).Nodup)
    (hfresh : ∀ item ∈ items, given.has item.1.name = false) :
    readFrom rules given none (arguments (givenBy items)) = .ok (given ++ givenBy items) := by
  induction items generalizing given with
  | nil =>
      rw [givenBy, List.flatMap_nil, List.append_nil]
      rfl
  | cons item items ih =>
      rw [List.forall_mem_cons] at hfits hfresh
      rw [List.map_cons, List.nodup_cons] at hdistinct
      have hcons : givenBy (item :: items) = options item.1.name item.2 ++ givenBy items := rfl
      have harguments : arguments (givenBy (item :: items)) =
          arguments (options item.1.name item.2) ++ arguments (givenBy items) := List.map_append
      rw [harguments, readFrom_values hfits.1 (.inr hfresh.1), hcons, ← List.append_assoc]
      -- What has just been given has another name than all that is left.
      refine ih hfits.2 hdistinct.2 fun other hother => ?_
      rw [has_append, hfresh.2 other hother, Bool.false_or, has_options, beq_false_of_ne,
        Bool.false_and]
      exact fun heq => hdistinct.1 (heq ▸ List.mem_map_of_mem hother)

/-- All options of a command line are read. -/
theorem readOptions_givenBy {items : List (OptionRule × List String)}
    (hfits : ∀ item ∈ items, Fits rules item.1 item.2)
    (hdistinct : (items.map (·.1.name)).Nodup) :
    readOptions rules (arguments (givenBy items)) = .ok (givenBy items) :=
  readFrom_givenBy hfits hdistinct fun _ _ => rfl

/-- An option that is there has a value. -/
theorem isSome_value?_of_has {name : String} (h : given.has name = true) :
    (given.value? name).isSome = true := by
  rcases List.any_eq_true.1 h with ⟨option, hoption, hname⟩
  rw [Given.value?, List.lookup_isSome_iff]
  exact ⟨option, hoption, BEq.symm hname⟩

theorem value?_append (given given' : Given) (name : String) :
    (given ++ given').value? name = (given.value? name).or (given'.value? name) := by
  simp only [Given.value?, List.lookup_append]

theorem value?_options (name other : String) (values : List String) :
    (options other values).value? name = if name = other then values.head? else none := by
  induction values with
  | nil => exact (ite_self none).symm
  | cons value values ih =>
      rw [options, List.map_cons, Given.value?, List.lookup_cons]
      by_cases h : name = other
      · rw [if_pos h, h, beq_self_eq_true]
        rfl
      · rw [if_neg h] at ih ⊢
        rw [beq_false_of_ne h]
        exact ih

theorem values_append (given given' : Given) (name : String) :
    (given ++ given').values name = given.values name ++ given'.values name := by
  rw [Given.values, List.filter_append, List.map_append]
  rfl

theorem values_options (name other : String) (values : List String) :
    (options other values).values name = if other = name then values else [] := by
  rw [options, Given.values, List.filter_map, List.map_map]
  by_cases h : other = name
  · have hall : values.filter ((·.1 == name) ∘ fun value => (other, value)) = values :=
      List.filter_eq_self.2 fun _ _ => by simp only [Function.comp_apply, h, beq_self_eq_true]
    rw [if_pos h, hall]
    exact List.map_id values
  · have hnone : values.filter ((·.1 == name) ∘ fun value => (other, value)) = [] :=
      List.filter_eq_nil_iff.2 fun _ _ => by
        simp only [Function.comp_apply, beq_iff_eq, h, not_false_eq_true]
    rw [if_neg h, hnone, List.map_nil]

end Options

namespace ValidateRequest

/-- The options of a request, with their values. -/
def given (request : ValidateRequest) : Given :=
  options "counts" [request.counts] ++
    options "order" [String.ofList (Decimal.digits request.order)] ++
    options "input" [request.input] ++ options "format" request.format.toList ++
    options "log" request.log.toList ++ options "exclude" request.exclusions ++
    options "submodel" request.submodels

/-- A command line for the request. -/
def line (request : ValidateRequest) : List String := "validate" :: arguments request.given

/-- The options of a request ask for it. -/
theorem ofGiven_given {request : ValidateRequest} (horder : request.order < wordLimit) :
    ofGiven request.given = .ok request := by
  rw [ofGiven]
  simp only [given, value?_append, value?_options, values_append, values_options, Given.number?,
    if_true, if_false, String.reduceEq, List.head?_cons, Option.head?_toList, Option.or_some,
    Option.getD_none, Option.or_none, Option.none_or, Option.bind_some, String.toList_ofList,
    readWord_digits horder, List.append_nil, List.nil_append]
  rfl

/-- The arguments of a request are read as its options. -/
theorem readOptions_arguments {request : ValidateRequest} (horder : request.order < wordLimit)
    (hinput : request.input ≠ "") (hlog : ∀ log, request.log = some log → log ≠ "") :
    readOptions rules (arguments request.given) = .ok request.given := by
  have hgiven : request.given = givenBy
      [({ name := "counts" }, [request.counts]),
        ({ name := "order", kind := .number }, [String.ofList (Decimal.digits request.order)]),
        ({ name := "input", kind := .path }, [request.input]),
        ({ name := "format" }, request.format.toList),
        ({ name := "log", kind := .path }, request.log.toList),
        ({ name := "exclude", arity := .many }, request.exclusions),
        ({ name := "submodel", arity := .many }, request.submodels)] := by
    simp only [given, givenBy, List.flatMap_cons, List.flatMap_nil, List.append_nil,
      List.append_assoc]
  rw [hgiven]
  refine readOptions_givenBy ?_ (by simp only [List.map_cons, List.map_nil]; decide)
  simp only [List.forall_mem_cons, List.not_mem_nil, false_implies, implies_true, and_true]
  exact ⟨fits_option (by decide) (by decide) rfl (some _) fun _ _ => rfl,
    fits_option (by decide) (by decide) rfl (some _) fun _ h =>
      Option.some.inj h ▸ accepts_digits horder,
    fits_option (by decide) (by decide) rfl (some _) fun _ h =>
      Option.some.inj h ▸ accepts_path hinput,
    fits_option (by decide) (by decide) rfl _ fun _ _ => rfl,
    fits_option (by decide) (by decide) rfl _ fun log h => accepts_path (hlog log h),
    fits_many (by decide) (by decide) rfl rfl _, fits_many (by decide) (by decide) rfl rfl _⟩

/-- Every request to validate is read from some command line. -/
theorem read_line {request : ValidateRequest} (horder : request.order < wordLimit)
    (hinput : request.input ≠ "") (hlog : ∀ log, request.log = some log → log ≠ "") :
    Request.read request.line = .ok (.validate request) := by
  rw [line, Request.read, readOptions_arguments horder hinput hlog]
  exact bind_eq_ok_iff.2 ⟨_, rfl, bind_eq_ok_iff.2 ⟨_, ofGiven_given horder, rfl⟩⟩

end ValidateRequest

namespace GenerateRequest

/-- What a request gives to the options of its command. -/
def items (request : GenerateRequest) : List (OptionRule × List String) :=
  [({ name := "counts" }, request.counts.toList),
    ({ name := "order", kind := .number }, (request.order.map numberText).toList),
    ({ name := "seed" }, request.seed.toList),
    ({ name := "model", kind := .path }, request.model.toList),
    ({ name := "exclude", arity := .many }, request.exclusions),
    ({ name := "seed-row", arity := .many }, request.seedRows),
    ({ name := "submodel", arity := .many }, request.submodels),
    ({ name := "format" }, [request.format]),
    ({ name := "output", kind := .path }, request.output.toList),
    ({ name := "log", kind := .path }, request.log.toList),
    ({ name := "candidates", kind := .number }, (request.candidates.map numberText).toList),
    ({ name := "refine-passes", kind := .number }, (request.refinePasses.map numberText).toList)]

/-- A command line for the request, if it asks for no statistics. -/
def line (request : GenerateRequest) : List String :=
  "generate" :: arguments (givenBy request.items)

/-- Requests that a command line can make without asking for statistics: they
    name counts or a model, their numbers are words and their paths are not
    empty. -/
structure Sayable (request : GenerateRequest) : Prop where
  start : request.counts.isSome = true ∨ request.model.isSome = true
  order : ∀ n ∈ request.order, n < wordLimit
  candidates : ∀ n ∈ request.candidates, n < wordLimit
  refinePasses : ∀ n ∈ request.refinePasses, n < wordLimit
  model : ∀ path ∈ request.model, path ≠ ""
  output : ∀ path ∈ request.output, path ≠ ""
  log : ∀ path ∈ request.log, path ≠ ""
  statistics : request.statistics = false

variable {request : GenerateRequest}

/-- The options of a request ask for it. -/
theorem ofGiven_givenBy (h : request.Sayable) : ofGiven (givenBy request.items) = .ok request := by
  have hnumber {o : Option Nat} (ho : ∀ n ∈ o, n < wordLimit) :
      ((o.map numberText).bind fun value => (readWord value.toList).toOption) = o := by
    cases o with
    | none => rfl
    | some n =>
        rw [Option.map_some, Option.bind_some, numberText, String.toList_ofList,
          readWord_digits (ho n rfl)]
        rfl
  have hstart : (request.counts.isSome || request.model.isSome) = true :=
    Bool.or_eq_true_iff.2 h.start
  have hempty {α : Type} (o : Option α) : (!o.toList.isEmpty) = o.isSome := by cases o <;> rfl
  rw [ofGiven]
  simp only [items, givenBy, List.flatMap_cons, List.flatMap_nil, value?_append, value?_options,
    values_append, values_options, has_append, has_options, Given.number?, String.reduceEq,
    String.reduceBEq, if_true, if_false, Option.head?_toList, Option.or_none, Option.none_or,
    List.append_nil, List.nil_append, Bool.true_and, Bool.false_and, Bool.or_false, Bool.false_or,
    hempty, hstart, hnumber h.order, hnumber h.candidates, hnumber h.refinePasses, List.head?_cons,
    Option.getD_some]
  rw [← h.statistics]

/-- The arguments of a request are read as its options. -/
theorem readOptions_items (h : request.Sayable) :
    readOptions rules (arguments (givenBy request.items)) = .ok (givenBy request.items) := by
  have hnumber {o : Option Nat} (ho : ∀ n ∈ o, n < wordLimit) :
      ∀ value ∈ o.map numberText, ValueKind.number.accepts value = true := by
    intro value hvalue
    rcases Option.map_eq_some_iff.1 hvalue with ⟨n, hn, rfl⟩
    exact accepts_digits (ho n hn)
  refine readOptions_givenBy ?_ (by simp only [items, List.map_cons, List.map_nil]; decide)
  simp only [items, List.forall_mem_cons, List.not_mem_nil, false_implies, implies_true, and_true]
  exact ⟨fits_option (by decide) (by decide) rfl _ fun _ _ => rfl,
    fits_option (by decide) (by decide) rfl _ (hnumber h.order),
    fits_option (by decide) (by decide) rfl _ fun _ _ => rfl,
    fits_option (by decide) (by decide) rfl _ fun path hpath => accepts_path (h.model path hpath),
    fits_many (by decide) (by decide) rfl rfl _, fits_many (by decide) (by decide) rfl rfl _,
    fits_many (by decide) (by decide) rfl rfl _,
    fits_option (by decide) (by decide) rfl (some _) fun _ _ => rfl,
    fits_option (by decide) (by decide) rfl _ fun path hpath => accepts_path (h.output path hpath),
    fits_option (by decide) (by decide) rfl _ fun path hpath => accepts_path (h.log path hpath),
    fits_option (by decide) (by decide) rfl _ (hnumber h.candidates),
    fits_option (by decide) (by decide) rfl _ (hnumber h.refinePasses)⟩

/-- Every such request is read from some command line. -/
theorem read_line (h : request.Sayable) : Request.read request.line = .ok (.generate request) := by
  rw [line, Request.read, readOptions_items h]
  exact bind_eq_ok_iff.2 ⟨_, rfl, bind_eq_ok_iff.2 ⟨_, ofGiven_givenBy h, rfl⟩⟩

end GenerateRequest

end CommandLine

end Covering
