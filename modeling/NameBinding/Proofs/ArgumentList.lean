import NameBinding.Proofs.ExitCode
import NameBinding.Proofs.Scanning
import Mathlib.Data.Nat.Digits.Defs

/-!
Lists of arguments. Either they make sense, and then each of them that is not the value of the one
before it has changed the line, or a single message says what is wrong. A value can be written in
an argument of its own or behind an equals sign, wherever in the list this is.
-/

namespace NameBinding

theorem Text.isDigit_iff {byte : UInt8} :
    isDigit byte = true ↔ 48 ≤ byte.toNat ∧ byte.toNat ≤ 57 := by
  rw [isDigit, Bool.and_eq_true, decide_eq_true_eq, decide_eq_true_eq]
  rfl

/-- The number that decimal digits are written for. -/
def decimalValue (digits : Text) : Nat :=
  Nat.ofDigits 10 (digits.reverse.map fun digit => digit.toNat - 48)

/-- The path that a change adds to the inputs. -/
def Change.input? : Change → Option Text
  | .input path => some path
  | _ => none

/-- The job count that a change sets. -/
def Change.jobs? : Change → Option Nat
  | .jobs count => some count
  | _ => none

/-- Whether a change is about something else than inputs and jobs. -/
def Change.isOther : Change → Bool
  | .input _ | .jobs _ => false
  | _ => true

theorem Change.input?_of_isOther {change : Change} (h : change.isOther = true) :
    change.input? = none := by
  cases change <;> first | rfl | cases h

theorem Change.jobs?_of_isOther {change : Change} (h : change.isOther = true) :
    change.jobs? = none := by
  cases change <;> first | rfl | cases h

namespace CommandLine

theorem foldl_digits {digits : Text} (h : ∀ digit ∈ digits, Text.isDigit digit = true) :
    digits.foldl (fun count digit => 10 * count + (digit - 48).toNat) 0 = decimalValue digits := by
  induction digits using List.reverseRecOn with
  | nil => rfl
  | append_singleton front last ih =>
      have hfront := ih fun digit hdigit => h digit (List.mem_append_left _ hdigit)
      have hlast := h last (by simp)
      have hsub : (last - 48).toNat = last.toNat - 48 :=
        UInt8.toNat_sub_of_le last 48 (Text.isDigit_iff.mp hlast).1
      rw [List.foldl_concat, hfront, hsub, decimalValue, decimalValue, List.reverse_concat,
        List.map_cons, Nat.ofDigits_cons]
      omega

theorem decimalValue_lt {digits : Text} (h : ∀ digit ∈ digits, Text.isDigit digit = true) :
    decimalValue digits < 10 ^ digits.length := by
  have hdigits : ∀ value ∈ digits.reverse.map fun digit => digit.toNat - 48, value < 10 := by
    intro value hvalue
    obtain ⟨digit, hdigit, rfl⟩ := List.mem_map.mp hvalue
    have hbound := (Text.isDigit_iff.mp (h digit (List.mem_reverse.mp hdigit))).2
    omega
  have hlt := Nat.ofDigits_lt_base_pow_length (by decide : 1 < 10) hdigits
  rwa [List.length_map, List.length_reverse] at hlt

/-- The counts that are accepted: one to four digits, and not zero. -/
theorem jobCount?_eq_some_iff {text : Text} {jobs : Nat} :
    jobCount? text = some jobs ↔
      text ≠ [] ∧ text.length ≤ 4 ∧ (∀ digit ∈ text, Text.isDigit digit = true) ∧
        decimalValue text = jobs ∧ 0 < jobs := by
  unfold jobCount?
  by_cases hshape : text ≠ [] ∧ text.length ≤ 4 ∧ ∀ digit ∈ text, Text.isDigit digit = true
  · obtain ⟨hnonempty, hlength, hdigits⟩ := hshape
    have hrefused :
        (text.isEmpty || decide (text.length > 4) || !text.all Text.isDigit) = false := by
      simpa [hnonempty, hlength] using hdigits
    rw [hrefused, if_neg Bool.false_ne_true, foldl_digits hdigits]
    cases decimalValue text with
    | zero =>
        constructor
        · nofun
        · rintro ⟨-, -, -, rfl, hpositive⟩
          exact absurd hpositive (Nat.lt_irrefl 0)
    | succ count =>
        constructor
        · intro hcount
          obtain rfl := Option.some.inj hcount
          exact ⟨hnonempty, hlength, hdigits, rfl, Nat.succ_pos count⟩
        · rintro ⟨-, -, -, rfl, -⟩
          rfl
  · have hrefused :
        (text.isEmpty || decide (text.length > 4) || !text.all Text.isDigit) = true := by
      by_contra haccepted
      apply hshape
      simpa [and_assoc] using haccepted
    rw [if_pos hrefused]
    constructor
    · nofun
    · rintro ⟨hnonempty, hlength, hdigits, -⟩
      exact absurd ⟨hnonempty, hlength, hdigits⟩ hshape

theorem jobCount?_bounds {text : Text} {jobs : Nat} (h : jobCount? text = some jobs) :
    1 ≤ jobs ∧ jobs ≤ 9999 := by
  obtain ⟨-, hlength, hdigits, rfl, hpositive⟩ := jobCount?_eq_some_iff.mp h
  have hbound : decimalValue text < 10 ^ 4 :=
    (decimalValue_lt hdigits).trans_le (Nat.pow_le_pow_right (by decide) hlength)
  exact ⟨hpositive, Nat.le_of_lt_succ hbound⟩

/-- The options that take the argument after them as their value. -/
def takesNext (argument : Text) : Bool :=
  argument == "--import-root" || argument == "--emit-report"

/-- The arguments that are scanned for what they are, and not as the value of the one before. -/
def scanned : List Text → List Text
  | [] => []
  | [argument] => [argument]
  | argument :: next :: rest =>
    argument :: if takesNext argument then scanned rest else scanned (next :: rest)

theorem scanned_taking {argument : Text} (h : takesNext argument = true) (value : Text)
    (rest : List Text) : scanned (argument :: value :: rest) = argument :: scanned rest := by
  rw [scanned, if_pos h]

theorem scanned_cons {argument : Text} (h : takesNext argument = false) (rest : List Text) :
    scanned (argument :: rest) = argument :: scanned rest := by
  cases rest with
  | nil => rfl
  | cons next later => rw [scanned, if_neg (by simp [h])]

/-- The count that an option for jobs gives. -/
def givenCount? (argument : Text) : Option Text := List.isPrefixOf? ("--jobs=" : Text) argument

/-- An option that gives no job count. -/
structure OtherOption (argument : Text) : Prop where
  option : ("-" : Text) <+: argument
  uncounted : givenCount? argument = none

/-- What is known of an argument by what it is read as. -/
def Fits (argument : Text) : Argument → Prop
  | .help | .version | .unknown _ => True
  | .jobs count => takesNext argument = false ∧ ("-" : Text) <+: argument ∧
      givenCount? argument = some count
  | .input path => takesNext argument = false ∧ ¬ ("-" : Text) <+: argument ∧ argument = path
  | .importRootFollows | .reportFollows => takesNext argument = true ∧ OtherOption argument
  | .quiet | .submodules _ | .requireImport | .importRoot _ | .report _ =>
      takesNext argument = false ∧ OtherOption argument

theorem fits_ofText (argument : Text) : Fits argument (.ofText argument) := by
  have hoption {argument : Text} (h : List.isPrefixOf ("-" : Text) argument = true) :
      ("-" : Text) <+: argument := List.isPrefixOf_iff_prefix.mp h
  have hword {word : Text} (taking : Bool) (h : (argument == word) = true)
      (hcheck : (takesNext word, List.isPrefixOf ("-" : Text) word, givenCount? word) =
        (taking, true, none)) : takesNext argument = taking ∧ OtherOption argument := by
    obtain rfl := beq_iff_eq.mp h
    obtain ⟨htakes, hdash, huncounted⟩ := by simpa only [Prod.mk.injEq] using hcheck
    exact ⟨htakes, hoption hdash, huncounted⟩
  unfold Argument.ofText
  split
  · trivial
  split
  · trivial
  split
  · next h => exact hword false h rfl
  split
  · next h => exact hword false h rfl
  split
  · next h => exact hword false h rfl
  split
  · next h => exact hword false h rfl
  split
  · next h => exact hword true h rfl
  split
  · next h => exact hword true h rfl
  split
  · next count h =>
    have hcount : givenCount? argument = some count := h
    obtain rfl := List.isPrefixOf?_eq_some_iff_append_eq.mp h
    exact ⟨rfl, hoption rfl, hcount⟩
  split
  · next path h =>
    obtain rfl := List.isPrefixOf?_eq_some_iff_append_eq.mp h
    exact ⟨rfl, hoption rfl, rfl⟩
  split
  · next path h =>
    obtain rfl := List.isPrefixOf?_eq_some_iff_append_eq.mp h
    exact ⟨rfl, hoption rfl, rfl⟩
  split
  · trivial
  · next hroot hreport _ _ _ _ _ _ hdash =>
    have htakes : takesNext argument = false := by simp [takesNext, hroot, hreport]
    exact ⟨htakes, fun h => hdash (List.isPrefixOf_iff_prefix.mpr h), rfl⟩

/-- How an argument that is scanned changes the line. -/
inductive Makes (argument : Text) : Change → Prop where
  | jobs {count : Text} {jobs : Nat} : ("-" : Text) <+: argument →
      givenCount? argument = some count → jobCount? count = some jobs → Makes argument (.jobs jobs)
  | input : ¬ ("-" : Text) <+: argument → Makes argument (.input argument)
  | other {change : Change} : OtherOption argument → change.isOther = true → Makes argument change

theorem forall₂_makes_cons {argument : Text} {change : Change} {rest : List Text}
    {changes : List Change} (htakes : takesNext argument = false) (hfirst : Makes argument change)
    (hrest : List.Forall₂ Makes (scanned rest) changes) :
    List.Forall₂ Makes (scanned (argument :: rest)) (change :: changes) := by
  rw [scanned_cons htakes]
  exact .cons hfirst hrest

/-- Arguments that are scanned to their end change the line one by one, values left aside. -/
theorem makes_scanned {arguments : List Text} (h : (Asked.of arguments).ending = .complete) :
    List.Forall₂ Makes (scanned arguments) (Asked.of arguments).changes := by
  fun_induction Asked.of arguments
  case case1 => exact .nil
  -- The scan ends at an argument of these kinds.
  case case2 | case3 | case8 | case10 | case13 | case15 => cases h
  case case7 argument rest count hread jobs hjobs ih =>
    obtain ⟨htakes, hoption, hcount⟩ := hread ▸ fits_ofText argument
    exact forall₂_makes_cons htakes (.jobs hoption hcount hjobs) (ih h)
  case case16 argument rest path hread ih =>
    obtain ⟨htakes, hinput, rfl⟩ := hread ▸ fits_ofText argument
    exact forall₂_makes_cons htakes (.input hinput) (ih h)
  -- The value is the argument that follows.
  case case11 argument hread path rest ih | case14 argument hread path rest ih =>
    obtain ⟨htakes, hother⟩ := hread ▸ fits_ofText argument
    rw [scanned_taking htakes]
    exact .cons (.other hother rfl) (ih h)
  case case4 argument rest hread ih | case6 argument rest hread ih =>
    obtain ⟨htakes, hother⟩ := hread ▸ fits_ofText argument
    exact forall₂_makes_cons htakes (.other hother rfl) (ih h)
  case case5 argument rest value hread ih | case9 argument rest value hread ih |
      case12 argument rest value hread ih =>
    obtain ⟨htakes, hother⟩ := hread ▸ fits_ofText argument
    exact forall₂_makes_cons htakes (.other hother rfl) (ih h)

/-- The inputs are the arguments that are no options. -/
theorem inputs_of_makes {arguments : List Text} {changes : List Change}
    (h : List.Forall₂ Makes arguments changes) :
    changes.filterMap Change.input? =
      arguments.filter fun argument => !List.isPrefixOf ("-" : Text) argument := by
  have hoption {argument : Text} (h : ("-" : Text) <+: argument) :
      List.isPrefixOf ("-" : Text) argument = true := List.isPrefixOf_iff_prefix.mpr h
  induction h with
  | nil => rfl
  | @cons argument change rest changes hfirst _ ih =>
      rw [List.filterMap_cons, List.filter_cons, ih]
      cases hfirst with
      | jobs hdash _ _ => simp [Change.input?, hoption hdash]
      | input hinput =>
          have hplain : List.isPrefixOf ("-" : Text) argument = false :=
            Bool.eq_false_iff.mpr fun h => hinput (List.isPrefixOf_iff_prefix.mp h)
          simp [Change.input?, hplain]
      | other hother hkind => simp [Change.input?_of_isOther hkind, hoption hother.option]

/-- The job counts are those that the options for jobs give, as numbers. -/
theorem counts_of_makes {arguments : List Text} {changes : List Change}
    (h : List.Forall₂ Makes arguments changes) :
    (arguments.filterMap givenCount?).map jobCount? =
      (changes.filterMap Change.jobs?).map some := by
  have hinput {argument : Text} (h : ¬ ("-" : Text) <+: argument) :
      givenCount? argument = none := by
    cases hcount : givenCount? argument with
    | none => rfl
    | some count =>
        obtain rfl := List.isPrefixOf?_eq_some_iff_append_eq.mp hcount
        exact absurd (List.isPrefixOf_iff_prefix.mp rfl) h
  induction h with
  | nil => rfl
  | @cons argument change rest changes hfirst _ ih =>
      rw [List.filterMap_cons, List.filterMap_cons]
      cases hfirst with
      | jobs _ hcount hjobs => simp [hcount, Change.jobs?, hjobs, ih]
      | input hplain => simpa [hinput hplain, Change.jobs?] using ih
      | other hother hkind => simpa [hother.uncounted, Change.jobs?_of_isOther hkind] using ih

theorem makeAll_inputs (line : CommandLine) (changes : List Change) :
    (line.makeAll changes).inputs = line.inputs ++ changes.filterMap Change.input? := by
  induction changes generalizing line with
  | nil => exact (List.append_nil _).symm
  | cons change rest ih =>
      rw [makeAll, List.foldl_cons, ← makeAll, ih]
      cases change <;> simp [make, List.filterMap_cons, Change.input?]

/-- The last job count is the one that stays. -/
theorem makeAll_jobs_eq (line : CommandLine) (changes : List Change) :
    (line.makeAll changes).jobs = (changes.filterMap Change.jobs?).getLast?.getD line.jobs := by
  induction changes generalizing line with
  | nil => rfl
  | cons change rest ih =>
      rw [makeAll, List.foldl_cons, ← makeAll, ih]
      cases change <;> simp [make, List.filterMap_cons, Change.jobs?, List.getLast?_cons]

theorem parse_eq_ok_iff {arguments : List Text} {line : CommandLine} :
    parse arguments = .ok line ↔
      scan {} arguments = .ok line ∧ (line.purpose = .resolve → line.inputs ≠ []) := by
  unfold parse
  cases scan {} arguments with
  | error fault => simp [bind, Except.bind]
  | ok last =>
      simp only [bind, Except.bind, pure, Except.pure]
      split
      · next hempty =>
        simp only [Bool.and_eq_true, beq_iff_eq, List.isEmpty_iff] at hempty
        constructor
        · nofun
        · rintro ⟨hline, hinputs⟩
          obtain rfl := Except.ok.inj hline
          exact absurd hempty.2 (hinputs hempty.1)
      · next hcomplete =>
        simp only [Bool.and_eq_true, beq_iff_eq, List.isEmpty_iff] at hcomplete
        constructor
        · intro hline
          obtain rfl := Except.ok.inj hline
          exact ⟨rfl, fun hpurpose hinputs => hcomplete ⟨hpurpose, hinputs⟩⟩
        · exact And.left

/-- A line that is to be resolved is made by all its arguments. -/
theorem line_of_scan {arguments : List Text} {line : CommandLine}
    (hscan : scan {} arguments = .ok line) (hpurpose : line.purpose = .resolve) :
    line = makeAll {} (Asked.of arguments).changes := by
  have hcomplete := ending_of_scan hscan hpurpose
  rw [scan_eq, hcomplete] at hscan
  exact (Except.ok.inj hscan).symm

theorem inputs_of_scan {arguments : List Text} {line : CommandLine}
    (hscan : scan {} arguments = .ok line) (hpurpose : line.purpose = .resolve) :
    line.inputs = (scanned arguments).filter (!List.isPrefixOf ("-" : Text) ·) := by
  have hmakes := makes_scanned (ending_of_scan hscan hpurpose)
  rw [line_of_scan hscan hpurpose, makeAll_inputs, inputs_of_makes hmakes]
  rfl

/-- The job count is the one that the last option for jobs gives. -/
theorem jobs_of_scan {arguments : List Text} {line : CommandLine}
    (hscan : scan {} arguments = .ok line) (hpurpose : line.purpose = .resolve) :
    match ((scanned arguments).filterMap givenCount?).getLast? with
    | none => line.jobs = 1
    | some count => jobCount? count = some line.jobs := by
  have hmakes := makes_scanned (ending_of_scan hscan hpurpose)
  have hjobs : line.jobs =
      ((Asked.of arguments).changes.filterMap Change.jobs?).getLast?.getD 1 := by
    rw [line_of_scan hscan hpurpose, makeAll_jobs_eq]
  have hcounts := congrArg List.getLast? (counts_of_makes hmakes)
  rw [List.getLast?_map, List.getLast?_map] at hcounts
  cases hgiven : ((scanned arguments).filterMap givenCount?).getLast? with
  | none =>
      rw [hgiven, eq_comm, Option.map_none, Option.map_eq_none_iff] at hcounts
      rw [hjobs, hcounts, Option.getD_none]
  | some count =>
      rw [hgiven, eq_comm, Option.map_some, Option.map_eq_some_iff] at hcounts
      obtain ⟨jobs, hlast, hcount⟩ := hcounts
      rw [hjobs, hlast, Option.getD_some, hcount]

/-- A value comes to the same in the argument after its option and behind an equals sign. -/
theorem parse_value {option joined value : Text} (change : Change)
    (hoption : ∀ (line : CommandLine) (rest : List Text),
      line.scan (option :: value :: rest) = (line.make change).scan rest)
    (hjoined : ∀ (line : CommandLine) (rest : List Text),
      line.scan (joined :: rest) = (line.make change).scan rest)
    {before : List Text} (h : (Asked.of before).ending = .complete) (after : List Text) :
    parse (before ++ option :: value :: after) = parse (before ++ joined :: after) := by
  unfold parse
  rw [scan_append h, scan_append h, hoption, hjoined]

/-- Where the arguments make sense, nothing that a run tells is about them. -/
theorem usage_not_mem_messages {arguments : List Text} {line : CommandLine}
    (h : parse arguments = .ok line) (disk : Disk) (fault : UsageFault) :
    .usage fault ∉ (Tool.run disk arguments).messages := by
  intro hmember
  unfold Tool.run at hmember
  rw [h] at hmember
  cases hpurpose : line.purpose with
  | help => simp [hpurpose] at hmember
  | version => simp [hpurpose] at hmember
  | resolve =>
      simp only [hpurpose] at hmember
      obtain ⟨-, hmessages, -⟩ := Tool.resolve_spec disk line
      rw [hmessages] at hmember
      rcases List.mem_append.mp hmember with htold | hlast
      · rcases Tool.mem_told htold with ⟨_, _, heq, -⟩ | ⟨_, heq⟩ | ⟨_, heq⟩ | ⟨_, _, heq⟩ <;>
          cases heq
      · split at hlast
        · cases List.mem_singleton.mp hlast
        · cases hlast

end CommandLine

/-- Scanning the arguments. Either they make sense, and then no message is about them, or one
message says what is wrong with them, and it is the only one. A line that is to be resolved names
inputs, none of them an option, and its job count is the number from 1 to 9999 that the last option
for jobs gives, if there is one that is scanned as an option. A value is taken as it stands, in an
argument of its own as well as behind an equals sign, wherever the scan comes to it. -/
theorem CommandLine.parse_scanned (arguments : List Text) :
    ((∃ line, parse arguments = .ok line ∧
        ∀ disk fault, .usage fault ∉ (Tool.run disk arguments).messages) ∨
      ∃ fault, parse arguments = .error fault ∧
        ∀ disk, (Tool.run disk arguments).messages = [.usage fault]) ∧
    (∀ line, parse arguments = .ok line → line.purpose = .resolve →
      line.inputs ≠ [] ∧ (∀ input ∈ line.inputs, ¬ ("-" : Text) <+: input) ∧
        line.inputs = (scanned arguments).filter (!List.isPrefixOf ("-" : Text) ·) ∧
        1 ≤ line.jobs ∧ line.jobs ≤ 9999 ∧
        match ((scanned arguments).filterMap givenCount?).getLast? with
        | none => line.jobs = 1
        | some count => count ≠ [] ∧ (∀ digit ∈ count, Text.isDigit digit = true) ∧
          line.jobs = decimalValue count) ∧
    ∀ (before after : List Text) (reached : CommandLine) (value : Text),
      scan {} before = .ok reached → reached.purpose = .resolve →
      parse (before ++ ("--import-root" : Text) :: value :: after) =
          parse (before ++ ("--import-root=" ++ value) :: after) ∧
        parse (before ++ ("--emit-report" : Text) :: value :: after) =
          parse (before ++ ("--emit-report=" ++ value) :: after) := by
  refine ⟨?_, ?_, ?_⟩
  · cases hparse : parse arguments with
    | error fault => exact .inr ⟨fault, rfl, fun disk => by simp only [Tool.run, hparse]⟩
    | ok line => exact .inl ⟨line, rfl, usage_not_mem_messages hparse⟩
  · intro line hparse hpurpose
    obtain ⟨hscan, hinputs⟩ := parse_eq_ok_iff.mp hparse
    have hnames := inputs_of_scan hscan hpurpose
    have hjobs := jobs_of_scan hscan hpurpose
    refine ⟨hinputs hpurpose, fun input hinput => ?_, hnames, ?_⟩
    · rw [hnames] at hinput
      intro hdash
      simpa [List.isPrefixOf_iff_prefix.mpr hdash] using (List.mem_filter.mp hinput).2
    · cases hgiven : ((scanned arguments).filterMap givenCount?).getLast? with
      | none =>
          rw [hgiven] at hjobs
          exact ⟨hjobs.ge, hjobs.le.trans (by decide), hjobs⟩
      | some count =>
          rw [hgiven] at hjobs
          obtain ⟨hpositive, hbound⟩ := jobCount?_bounds hjobs
          obtain ⟨hnonempty, -, hdigits, hvalue, -⟩ := jobCount?_eq_some_iff.mp hjobs
          exact ⟨hpositive, hbound, hnonempty, hdigits, hvalue.symm⟩
  · intro before after reached value hscan hpurpose
    have hcomplete := ending_of_scan hscan hpurpose
    exact ⟨parse_value (.importRoot value) (fun _ _ => rfl) (fun _ _ => rfl) hcomplete after,
      parse_value (.report value) (fun _ _ => rfl) (fun _ _ => rfl) hcomplete after⟩

/-- An option for jobs is no option where it stands as the value of another. -/
theorem CommandLine.parse_scanned_value :
    let arguments : List Text := ["--jobs=03", "--import-root", "--jobs=9", "meet"]
    let line : CommandLine := { inputs := ["meet"], importRoots := ["--jobs=9"], jobs := 3 }
    parse arguments = .ok line ∧ scanned arguments = ["--jobs=03", "--import-root", "meet"] ∧
      line.jobs = decimalValue "03" ∧ scan {} ["--jobs=03"] = .ok { jobs := 3 } ∧
      parse arguments = parse ["--jobs=03", "--import-root=--jobs=9", "meet"] := by
  intro arguments line
  obtain ⟨-, hline, hvalue⟩ := parse_scanned arguments
  have hparse : parse arguments = .ok line := rfl
  obtain ⟨-, -, -, -, -, hjobs⟩ := hline line hparse rfl
  have hgiven : ("03" : Text) ≠ [] ∧ (∀ digit ∈ ("03" : Text), Text.isDigit digit = true) ∧
      line.jobs = decimalValue "03" := hjobs
  exact ⟨hparse, rfl, hgiven.2.2, rfl,
    (hvalue ["--jobs=03"] ["meet"] { jobs := 3 } "--jobs=9" rfl rfl).1⟩

end NameBinding
