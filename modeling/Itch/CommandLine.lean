import Mathlib.Algebra.Order.Ring.Int
import Mathlib.Data.List.Nodup
import Mathlib.Data.List.TakeWhile

namespace Itch

abbrev Arg := List Char

/-- How the program ends over its arguments: with a code, after a message and the usage. -/
structure Exit where
  code : Nat
  message : Arg := []
  deriving DecidableEq

def isSpace (c : Char) : Bool := c = ' ' || (9 ≤ c.toNat && c.toNat ≤ 13)

/-- Whether a number starts with a minus, and what follows its sign. -/
def splitSign : Arg → Bool × Arg
  | '-' :: s => (true, s)
  | '+' :: s => (false, s)
  | s => (false, s)

/-- What `strtol` makes of a decimal number, and what it leaves; `none` if there is no digit. -/
def strtol (s : Arg) : Option (Int × Arg) :=
  let (negative, s) := splitSign (s.dropWhile isSpace)
  let digits := s.takeWhile Char.isDigit
  if digits = [] then none else
  let n : Int := Nat.ofDigitChars 10 digits 0
  some (if negative then max (-n) (-2 ^ 63) else min n (2 ^ 63 - 1), s.dropWhile Char.isDigit)

def parseInt (s : Arg) (what : String) : Except Exit Nat :=
  match strtol s with
  | some (v, []) => if v < 0 then .error ⟨2, ("invalid " ++ what ++ ": ").toList ++ s⟩ else .ok v.toNat
  | _ => .error ⟨2, ("invalid " ++ what ++ ": ").toList ++ s⟩

structure Config where
  replayPath : Arg := []
  mcastGroup : Arg := []
  mcastPort : UInt16 := 0
  ifaceIp : Arg := []
  xdpIface : Arg := []
  xdpQueue : UInt32 := 0
  xdpNative : Bool := false
  xdpZeroCopy : Bool := false
  xdpProg : Arg := []
  symbol : Arg := []
  statsSecs : Int32 := 5
  cpuFeed : Int32 := -1
  cpuConsumer : Int32 := -1
  latency : Bool := false
  perf : Bool := false
  depthProfile : Bool := false
  prefetch : Int32 := 16
  expectedOrders : UInt64 := 8388608

/-- What stands before and after the last colon. -/
def splitColon (v : Arg) : Option (Arg × Arg) :=
  match v.reverse.dropWhile (· ≠ ':') with
  | [] => none
  | _ :: front => some (front.reverse, (v.reverse.takeWhile (· ≠ ':')).reverse)

/-- What an argument asks for. -/
inductive CliOption where
  | flag (set : Config → Config)
  | value (set : Config → Arg → Except Exit Config)
  | help
  | unknown

def CliOption.text (set : Config → Arg → Config) : CliOption := .value fun c v => .ok (set c v)

def CliOption.number (what : String) (set : Config → Nat → Config) : CliOption :=
  .value fun c v => (parseInt v what).map (set c)

def setMcast (c : Config) (v : Arg) : Except Exit Config :=
  match splitColon v with
  | none => .error { code := 2 }
  | some (group, port) => (parseInt port "port").map fun p => { c with mcastGroup := group, mcastPort := .ofNat p }

def setXdp (c : Config) (v : Arg) : Except Exit Config :=
  match splitColon v with
  | none => .ok { c with xdpIface := v }
  | some (iface, queue) => (parseInt queue "queue").map fun q => { c with xdpIface := iface, xdpQueue := .ofNat q }

def setPrefetch (c : Config) (v : Arg) : Except Exit Config :=
  match parseInt v "--prefetch" with
  | .error e => .error e
  | .ok n =>
    let lookahead : Int32 := .ofNat n
    if lookahead ≠ 0 ∧ lookahead ≠ 8 ∧ lookahead ≠ 16 ∧ lookahead ≠ 32 then
      .error ⟨2, "--prefetch must be 0, 8, 16 or 32".toList⟩
    else .ok { c with prefetch := lookahead }

/-- The options, in the order an argument is compared with them. -/
def cliOptions : List (String × CliOption) :=
  [("--replay", .text fun c v => { c with replayPath := v }),
   ("--mcast", .value setMcast),
   ("--iface", .text fun c v => { c with ifaceIp := v }),
   ("--port", .number "--port" fun c n => { c with mcastPort := .ofNat n }),
   ("--xdp", .value setXdp),
   ("--xdp-native", .flag fun c => { c with xdpNative := true }),
   ("--xdp-zerocopy", .flag fun c => { c with xdpZeroCopy := true }),
   ("--xdp-prog", .text fun c v => { c with xdpProg := v }),
   ("--symbol", .text fun c v => { c with symbol := v }),
   ("--latency", .flag fun c => { c with latency := true }),
   ("--perf", .flag fun c => { c with perf := true }),
   ("--depth-profile", .flag fun c => { c with depthProfile := true }),
   ("--prefetch", .value setPrefetch),
   ("--stats", .number "--stats" fun c n => { c with statsSecs := .ofNat n }),
   ("--orders", .number "--orders" fun c n => { c with expectedOrders := .ofNat n }),
   ("--cpu-feed", .number "--cpu-feed" fun c n => { c with cpuFeed := .ofNat n }),
   ("--cpu-consumer", .number "--cpu-consumer" fun c n => { c with cpuConsumer := .ofNat n }),
   ("--help", .help),
   ("-h", .help)]

def cliOption (a : Arg) : CliOption :=
  match cliOptions.find? fun o => o.1.toList = a with
  | some o => o.2
  | none => .unknown

/-- The loop over the arguments. -/
def parseFrom (c : Config) : List Arg → Except Exit Config
  | [] => .ok c
  | a :: rest =>
    match cliOption a with
    | .flag set => parseFrom (set c) rest
    | .value set =>
      match rest with
      | [] => .error { code := 2 }
      | v :: rest =>
        match set c v with
        | .error e => .error e
        | .ok c => parseFrom c rest
    | .help => .error { code := 0 }
    | .unknown => .error ⟨2, "unknown option: ".toList ++ a⟩

/-- `parse_args` after the program's name: exactly one of replay and live. -/
def parseArgs (args : List Arg) : Except Exit Config :=
  match parseFrom {} args with
  | .error e => .error e
  | .ok c =>
    let live : Bool := c.mcastPort ≠ 0
    if c.replayPath.isEmpty = !live then .error { code := 2 }
    else if !c.xdpIface.isEmpty && !live then .error ⟨2, "--xdp needs --mcast GROUP:PORT or --port PORT".toList⟩
    else .ok c

/-! ## Numbers and colons -/

theorem not_digit_of_isSpace {c : Char} (space : isSpace c) : ¬c.isDigit := by
  simp only [isSpace, Bool.or_eq_true, decide_eq_true_eq, Bool.and_eq_true] at space
  rcases space with rfl | small
  · decide
  · intro digit
    rw [Char.isDigit, Bool.and_eq_true, decide_eq_true_eq, decide_eq_true_eq] at digit
    have low : '0'.toNat ≤ c.toNat := digit.1
    rw [show '0'.toNat = 48 from rfl] at low
    omega

theorem splitSign_digit {d : Char} (digit : d.isDigit) (s : Arg) : splitSign (d :: s) = (false, d :: s) := by
  unfold splitSign
  split
  · next same =>
    cases same
    exact absurd digit (by decide)
  · next same =>
    cases same
    exact absurd digit (by decide)
  · rfl

theorem strtol_digits {s : Arg} (some_digit : s ≠ []) (digits : ∀ c ∈ s, c.isDigit) :
    strtol s = some (min (Nat.ofDigitChars 10 s 0 : Int) (2 ^ 63 - 1), []) := by
  have taken : s.takeWhile Char.isDigit = s := List.takeWhile_eq_self_iff.mpr digits
  have dropped : s.dropWhile Char.isDigit = [] := List.dropWhile_eq_nil_iff.mpr digits
  obtain ⟨d, rest, rfl⟩ := List.exists_cons_of_ne_nil some_digit
  have digit := digits d List.mem_cons_self
  rw [strtol, List.dropWhile_cons_of_neg fun space => not_digit_of_isSpace space digit, splitSign_digit digit]
  simp only [taken, dropped, if_neg some_digit, Bool.false_eq_true, if_false]

/-- The decimal digits of a number. -/
def decimal (n : Nat) : Arg := Nat.toDigits 10 n

theorem digit_of_mem_decimal {n : Nat} {c : Char} (member : c ∈ decimal n) : c.isDigit :=
  Nat.isDigit_of_mem_toDigits (by omega) (by omega) member

theorem parseInt_decimal {n : Nat} (small : n < 2 ^ 63) (what : String) : parseInt (decimal n) what = .ok n := by
  have nonempty : decimal n ≠ [] := Nat.toDigits_ne_nil
  have value : Nat.ofDigitChars 10 (decimal n) 0 = n := Nat.ofDigitChars_ten_toDigits
  rw [parseInt, strtol_digits nonempty fun c => digit_of_mem_decimal, value, Int.min_eq_left (by omega)]
  simp

theorem strtol_lt {s rest : Arg} {v : Int} (number : strtol s = some (v, rest)) : v < 2 ^ 63 := by
  unfold strtol at number
  generalize splitSign (s.dropWhile isSpace) = sign at number
  obtain ⟨negative, s⟩ := sign
  simp only at number
  split at number
  · cases number
  · cases number
    split <;> omega

/-- A number that `parse_int` accepts fits a `long`, and it exits with code 2 over any other text. -/
theorem parseInt_cases (s : Arg) (what : String) :
    (∃ n < 2 ^ 63, parseInt s what = .ok n) ∨ ∃ e : Exit, e.code = 2 ∧ parseInt s what = .error e := by
  rw [parseInt]
  split
  · next v number =>
    have bound := strtol_lt number
    split
    · exact .inr ⟨_, rfl, rfl⟩
    · exact .inl ⟨v.toNat, by omega, rfl⟩
  · exact .inr ⟨_, rfl, rfl⟩

theorem splitColon_colon (front : Arg) {back : Arg} (none : ':' ∉ back) :
    splitColon (front ++ ':' :: back) = some (front, back) := by
  have each : ∀ c ∈ back.reverse, decide (c ≠ ':') = true := by
    intro c member
    rw [decide_eq_true_eq]
    rintro rfl
    exact none (List.mem_reverse.mp member)
  have reversed : (front ++ ':' :: back).reverse = back.reverse ++ ':' :: front.reverse := by simp
  rw [splitColon, reversed, List.dropWhile_append_of_pos each, List.takeWhile_append_of_pos each]
  simp

theorem colon_not_mem_decimal (n : Nat) : ':' ∉ decimal n := fun member =>
  absurd (digit_of_mem_decimal member) (by decide)

/-! ## The options -/

/-- What every option keeps of a configuration. -/
structure Config.Ranged (c : Config) : Prop where
  lookahead : c.prefetch = 0 ∨ c.prefetch = 8 ∨ c.prefetch = 16 ∨ c.prefetch = 32
  orders : c.expectedOrders.toNat < 2 ^ 63

/-- The option keeps the configuration in range, and exits with code 2 only. -/
def CliOption.Keeps : CliOption → Prop
  | .flag set => ∀ c : Config, c.Ranged → (set c).Ranged
  | .value set => ∀ (c : Config) v, c.Ranged →
      (∃ c' : Config, c'.Ranged ∧ set c v = .ok c') ∨ ∃ e : Exit, e.code = 2 ∧ set c v = .error e
  | .help => True
  | .unknown => True

theorem CliOption.Keeps.text {set : Config → Arg → Config}
    (keeps : ∀ (c : Config) v, c.Ranged → (set c v).Ranged) : (text set).Keeps :=
  fun c v ranged => .inl ⟨set c v, keeps c v ranged, rfl⟩

theorem CliOption.Keeps.number {what : String} {set : Config → Nat → Config}
    (keeps : ∀ (c : Config) n, n < 2 ^ 63 → c.Ranged → (set c n).Ranged) : (number what set).Keeps := by
  intro c v ranged
  rcases parseInt_cases v what with ⟨n, small, ok⟩ | ⟨e, code, error⟩
  · exact .inl ⟨set c n, keeps c n small ranged, congrArg (Except.map (set c)) ok⟩
  · exact .inr ⟨e, code, congrArg (Except.map (set c)) error⟩

theorem setMcast_keeps : (CliOption.value setMcast).Keeps := by
  intro c v ranged
  rw [setMcast]
  split
  · exact .inr ⟨_, rfl, rfl⟩
  · next group port _ =>
    refine @CliOption.Keeps.number "port" (fun c p => { c with mcastGroup := group, mcastPort := .ofNat p }) ?_ c port ranged
    exact fun c n _ ranged => ⟨ranged.lookahead, ranged.orders⟩

theorem setXdp_keeps : (CliOption.value setXdp).Keeps := by
  intro c v ranged
  rw [setXdp]
  split
  · exact .inl ⟨{ c with xdpIface := v }, ⟨ranged.lookahead, ranged.orders⟩, rfl⟩
  · next iface queue _ =>
    refine @CliOption.Keeps.number "queue" (fun c q => { c with xdpIface := iface, xdpQueue := .ofNat q }) ?_ c queue ranged
    exact fun c n _ ranged => ⟨ranged.lookahead, ranged.orders⟩

theorem setPrefetch_keeps : (CliOption.value setPrefetch).Keeps := by
  intro c v ranged
  rw [setPrefetch]
  rcases parseInt_cases v "--prefetch" with ⟨n, -, ok⟩ | ⟨e, code, error⟩
  · simp only [ok]
    split
    · exact .inr ⟨_, rfl, rfl⟩
    · next listed =>
      refine .inl ⟨{ c with prefetch := .ofNat n }, ⟨?_, ranged.orders⟩, rfl⟩
      simp only
      grind
  · exact .inr ⟨e, code, by rw [error]⟩

theorem cliOptions_keep : ∀ o ∈ cliOptions, o.2.Keeps := by
  simp only [cliOptions, List.forall_mem_cons]
  refine ⟨.text ?_, setMcast_keeps, .text ?_, .number ?_, setXdp_keeps, ?_, ?_, .text ?_, .text ?_, ?_, ?_, ?_,
    setPrefetch_keeps, .number ?_, .number ?orders, .number ?_, .number ?_, trivial, trivial, List.forall_mem_nil _⟩
  case orders =>
    intro c n small ranged
    refine ⟨ranged.lookahead, ?_⟩
    show (UInt64.ofNat n).toNat < 2 ^ 63
    rw [UInt64.toNat_ofNat_of_lt' (by rw [UInt64.size]; omega)]
    exact small
  all_goals first
    | exact fun _ ranged => ⟨ranged.lookahead, ranged.orders⟩
    | exact fun _ _ ranged => ⟨ranged.lookahead, ranged.orders⟩
    | exact fun _ _ _ ranged => ⟨ranged.lookahead, ranged.orders⟩

/-- An argument asks for the option of its name, if there is one. -/
theorem cliOption_cases (a : Arg) : (∃ o ∈ cliOptions, o.1.toList = a ∧ cliOption a = o.2) ∨
    (∀ o ∈ cliOptions, o.1.toList ≠ a) ∧ cliOption a = .unknown := by
  rw [cliOption]
  split
  · next o found => exact .inl ⟨o, List.mem_of_find?_eq_some found, by simpa using List.find?_some found, rfl⟩
  · next missing => exact .inr ⟨by simpa using missing, rfl⟩

theorem cliOption_keeps {a : Arg} {option : CliOption} (asked : cliOption a = option) : option.Keeps := by
  rcases cliOption_cases a with ⟨o, listed, -, same⟩ | ⟨-, unknown⟩
  · rw [← asked, same]
    exact cliOptions_keep o listed
  · rw [← asked, unknown]
    trivial

theorem help_of_cliOption {a : Arg} (help : cliOption a = .help) : a = "--help".toList ∨ a = "-h".toList := by
  have only : ∀ o ∈ cliOptions, o.2 = .help → o.1 = "--help" ∨ o.1 = "-h" := by
    simp [cliOptions, CliOption.text, CliOption.number]
  rcases cliOption_cases a with ⟨o, listed, rfl, same⟩ | ⟨-, unknown⟩
  · rcases only o listed (same.symm.trans help) with name | name
    · exact .inl (congrArg String.toList name)
    · exact .inr (congrArg String.toList name)
  · cases unknown.symm.trans help

/-- Some argument asks for help. -/
def AsksHelp (args : List Arg) : Prop := "--help".toList ∈ args ∨ "-h".toList ∈ args

theorem AsksHelp.cons {args : List Arg} (asks : AsksHelp args) (a : Arg) : AsksHelp (a :: args) :=
  asks.imp (List.mem_cons_of_mem a) (List.mem_cons_of_mem a)

/-- The loop keeps the configuration in range; it exits with code 2, or 0 where an argument asks for help. -/
theorem parseFrom_cases {c : Config} (ranged : c.Ranged) (args : List Arg) :
    (∃ c' : Config, c'.Ranged ∧ parseFrom c args = .ok c') ∨
      ∃ e : Exit, (e.code = 2 ∨ e.code = 0 ∧ AsksHelp args) ∧ parseFrom c args = .error e := by
  fun_induction parseFrom c args with
  | case1 c => exact .inl ⟨c, ranged, rfl⟩
  | case2 c a rest set option ih =>
    have keeps := cliOption_keeps option
    rcases ih (keeps c ranged) with ok | ⟨e, code, error⟩
    · exact .inl ok
    · exact .inr ⟨e, code.imp_right (And.imp_right (AsksHelp.cons · a)), error⟩
  | case3 c a set option => exact .inr ⟨_, .inl rfl, rfl⟩
  | case4 c a set option v rest e error =>
    have keeps := cliOption_keeps option
    rcases keeps c v ranged with ⟨c', -, ok⟩ | ⟨e', code, same⟩
    · cases ok.symm.trans error
    · cases same.symm.trans error
      exact .inr ⟨_, .inl code, rfl⟩
  | case5 c a set option v rest c' ok ih =>
    have keeps := cliOption_keeps option
    rcases keeps c v ranged with ⟨c'', ranged', same⟩ | ⟨e', code, error⟩
    · cases same.symm.trans ok
      rcases ih ranged' with ok | ⟨e, code, error⟩
      · exact .inl ok
      · exact .inr ⟨e, code.imp_right (And.imp_right fun asks => (asks.cons v).cons a), error⟩
    · cases error.symm.trans ok
  | case6 c a rest option =>
    refine .inr ⟨_, .inr ⟨rfl, ?_⟩, rfl⟩
    rcases help_of_cliOption option with rfl | rfl
    · exact .inl List.mem_cons_self
    · exact .inr List.mem_cons_self
  | case7 c a rest option => exact .inr ⟨_, .inl rfl, rfl⟩

/-! ## Every configuration has a command line -/

/-- What the program starts with: one source of messages, AF_XDP only live, a known lookahead. -/
structure Config.Valid (c : Config) : Prop extends c.Ranged where
  one_source : c.replayPath = [] ↔ c.mcastPort ≠ 0
  xdp_live : c.xdpIface ≠ [] → c.mcastPort ≠ 0

/-- A command line that asks for the configuration. -/
def Config.render (c : Config) : List Arg :=
  ["--replay".toList, c.replayPath, "--mcast".toList, c.mcastGroup ++ ':' :: decimal c.mcastPort.toNat,
   "--iface".toList, c.ifaceIp, "--xdp".toList, c.xdpIface ++ ':' :: decimal c.xdpQueue.toNat,
   "--xdp-prog".toList, c.xdpProg, "--symbol".toList, c.symbol,
   "--prefetch".toList, decimal c.prefetch.toUInt32.toNat, "--stats".toList, decimal c.statsSecs.toUInt32.toNat,
   "--orders".toList, decimal c.expectedOrders.toNat, "--cpu-feed".toList, decimal c.cpuFeed.toUInt32.toNat,
   "--cpu-consumer".toList, decimal c.cpuConsumer.toUInt32.toNat] ++
  ((if c.xdpNative then ["--xdp-native".toList] else []) ++ ((if c.xdpZeroCopy then ["--xdp-zerocopy".toList] else []) ++
  ((if c.latency then ["--latency".toList] else []) ++ ((if c.perf then ["--perf".toList] else []) ++
  if c.depthProfile then ["--depth-profile".toList] else []))))

/-- No two options have one name. -/
theorem cliOption_of_mem {name : String} {option : CliOption} (listed : (name, option) ∈ cliOptions) :
    cliOption name.toList = option := by
  have distinct : (cliOptions.map Prod.fst).Nodup := by simp [cliOptions]
  rcases cliOption_cases name.toList with ⟨o, listed', named, asked⟩ | ⟨other, -⟩
  · have same := List.inj_on_of_nodup_map distinct listed' listed (String.toList_inj.mp named)
    rw [asked, same]
  · exact absurd rfl (other _ listed)

theorem parseFrom_value {c c' : Config} {name : String} {v : Arg} {set : Config → Arg → Except Exit Config}
    (listed : (name, .value set) ∈ cliOptions) (ok : set c v = .ok c') (rest : List Arg) :
    parseFrom c (name.toList :: v :: rest) = parseFrom c' rest := by
  rw [parseFrom, cliOption_of_mem listed]
  simp only [ok]

theorem parseFrom_text {c : Config} {name : String} {set : Config → Arg → Config} (listed : (name, .text set) ∈ cliOptions)
    (v : Arg) (rest : List Arg) : parseFrom c (name.toList :: v :: rest) = parseFrom (set c v) rest :=
  parseFrom_value listed rfl rest

theorem parseFrom_number {c : Config} {name what : String} {set : Config → Nat → Config}
    (listed : (name, .number what set) ∈ cliOptions) {n : Nat} (small : n < 2 ^ 63) (rest : List Arg) :
    parseFrom c (name.toList :: decimal n :: rest) = parseFrom (set c n) rest :=
  parseFrom_value listed (congrArg (Except.map (set c)) (parseInt_decimal small what)) rest

/-- A flag stands on the command line where its field is true. -/
theorem parseFrom_flag {c : Config} {name : String} (set : Config → Bool → Config)
    (listed : (name, .flag fun c => set c true) ∈ cliOptions) (off : set c false = c) (on : Bool) (rest : List Arg) :
    parseFrom c ((if on then [name.toList] else []) ++ rest) = parseFrom (set c on) rest := by
  cases on with
  | false => rw [off]; rfl
  | true =>
    show parseFrom c (name.toList :: rest) = _
    rw [parseFrom, cliOption_of_mem listed]

theorem int32_ofNat_toNat (n : Int32) : Int32.ofNat n.toUInt32.toNat = n := by simp [Int32.ofNat]

theorem Config.Ranged.setPrefetch {c : Config} (ranged : c.Ranged) (c' : Config) :
    Itch.setPrefetch c' (decimal c.prefetch.toUInt32.toNat) = .ok { c' with prefetch := c.prefetch } := by
  have small := c.prefetch.toUInt32.toNat_lt
  have listed := ranged.lookahead
  rw [Itch.setPrefetch, parseInt_decimal (by omega)]
  simp only [int32_ofNat_toNat]
  exact if_neg (by grind)

theorem setMcast_rendered (c : Config) (group : Arg) (port : UInt16) :
    setMcast c (group ++ ':' :: decimal port.toNat) = .ok { c with mcastGroup := group, mcastPort := port } := by
  have small := port.toNat_lt
  rw [setMcast, splitColon_colon group (colon_not_mem_decimal _)]
  simp only [parseInt_decimal (show port.toNat < 2 ^ 63 by omega)]
  show Except.ok { c with mcastGroup := group, mcastPort := UInt16.ofNat port.toNat } = _
  rw [UInt16.ofNat_toNat]

theorem setXdp_rendered (c : Config) (iface : Arg) (queue : UInt32) :
    setXdp c (iface ++ ':' :: decimal queue.toNat) = .ok { c with xdpIface := iface, xdpQueue := queue } := by
  have small := queue.toNat_lt
  rw [setXdp, splitColon_colon iface (colon_not_mem_decimal _)]
  simp only [parseInt_decimal (show queue.toNat < 2 ^ 63 by omega)]
  show Except.ok { c with xdpIface := iface, xdpQueue := UInt32.ofNat queue.toNat } = _
  rw [UInt32.ofNat_toNat]

theorem parseFrom_render {c : Config} (ranged : c.Ranged) : parseFrom {} c.render = .ok c := by
  have int (n : Int32) : n.toUInt32.toNat < 2 ^ 63 := by
    have := n.toUInt32.toNat_lt
    omega
  simp only [Config.render, List.cons_append, List.nil_append]
  have replay : ("--replay", .text fun c v => { c with replayPath := v }) ∈ cliOptions := by simp [cliOptions]
  have mcast : ("--mcast", .value setMcast) ∈ cliOptions := by simp [cliOptions]
  have iface : ("--iface", .text fun c v => { c with ifaceIp := v }) ∈ cliOptions := by simp [cliOptions]
  have xdp : ("--xdp", .value setXdp) ∈ cliOptions := by simp [cliOptions]
  have xdpProg : ("--xdp-prog", .text fun c v => { c with xdpProg := v }) ∈ cliOptions := by simp [cliOptions]
  have symbol : ("--symbol", .text fun c v => { c with symbol := v }) ∈ cliOptions := by simp [cliOptions]
  have lookahead : ("--prefetch", .value setPrefetch) ∈ cliOptions := by simp [cliOptions]
  have stats : ("--stats", .number "--stats" fun c n => { c with statsSecs := .ofNat n }) ∈ cliOptions := by
    simp [cliOptions]
  have orders : ("--orders", .number "--orders" fun c n => { c with expectedOrders := .ofNat n }) ∈ cliOptions := by
    simp [cliOptions]
  have cpuFeed : ("--cpu-feed", .number "--cpu-feed" fun c n => { c with cpuFeed := .ofNat n }) ∈ cliOptions := by
    simp [cliOptions]
  have cpuConsumer :
      ("--cpu-consumer", .number "--cpu-consumer" fun c n => { c with cpuConsumer := .ofNat n }) ∈ cliOptions := by
    simp [cliOptions]
  have native : ("--xdp-native", .flag fun c => { c with xdpNative := true }) ∈ cliOptions := by simp [cliOptions]
  have zeroCopy : ("--xdp-zerocopy", .flag fun c => { c with xdpZeroCopy := true }) ∈ cliOptions := by simp [cliOptions]
  have latency : ("--latency", .flag fun c => { c with latency := true }) ∈ cliOptions := by simp [cliOptions]
  have perf : ("--perf", .flag fun c => { c with perf := true }) ∈ cliOptions := by simp [cliOptions]
  have profile : ("--depth-profile", .flag fun c => { c with depthProfile := true }) ∈ cliOptions := by simp [cliOptions]
  rw [parseFrom_text replay, parseFrom_value mcast (setMcast_rendered _ _ _), parseFrom_text iface,
    parseFrom_value xdp (setXdp_rendered _ _ _), parseFrom_text xdpProg, parseFrom_text symbol,
    parseFrom_value lookahead (ranged.setPrefetch _), parseFrom_number stats (int _), parseFrom_number orders ranged.orders,
    parseFrom_number cpuFeed (int _), parseFrom_number cpuConsumer (int _)]
  -- each field of the configuration is set by now, but for the flags
  simp only [int32_ofNat_toNat, UInt64.ofNat_toNat]
  rw [parseFrom_flag (fun c on => { c with xdpNative := on }) native rfl]
  rw [parseFrom_flag (fun c on => { c with xdpZeroCopy := on }) zeroCopy rfl]
  rw [parseFrom_flag (fun c on => { c with latency := on }) latency rfl]
  rw [parseFrom_flag (fun c on => { c with perf := on }) perf rfl]
  have last := @parseFrom_flag { c with depthProfile := false } _ (fun c on => { c with depthProfile := on }) profile rfl
    c.depthProfile []
  rw [List.append_nil] at last
  exact last

theorem one_source_iff (path : Arg) (port : UInt16) :
    ¬path.isEmpty = (!decide (port ≠ 0)) ↔ (path = [] ↔ port ≠ 0) := by
  rw [← List.isEmpty_iff]
  by_cases live : port = 0
  · simp [live]
  · simp [live]

/-- The configurations that a command line can ask for are the valid ones, and each has a command
line of its own. The program exits over other arguments: with code 0 only where one asks for help. -/
theorem parseArgs_configs :
    (∀ args c, parseArgs args = .ok c → c.Valid) ∧ (∀ c : Config, c.Valid → parseArgs c.render = .ok c) ∧
      ∀ args e, parseArgs args = .error e → e.code = 2 ∨ e.code = 0 ∧ AsksHelp args := by
  have start : Config.Ranged {} := ⟨by decide, by decide⟩
  refine ⟨fun args c accepted => ?_, fun c valid => ?_, fun args e exit => ?_⟩
  · rcases parseFrom_cases start args with ⟨c', ranged, ok⟩ | ⟨e, -, error⟩
    · rw [parseArgs, ok] at accepted
      simp only at accepted
      split at accepted
      · cases accepted
      · next one =>
        split at accepted
        · cases accepted
        · next live =>
          cases accepted
          exact ⟨ranged, (one_source_iff ..).mp one, by simpa using live⟩
    · rw [parseArgs, error] at accepted
      cases accepted
  · rw [parseArgs, parseFrom_render valid.toRanged]
    have one := valid.one_source
    have live := valid.xdp_live
    simp only
    rw [if_neg ((one_source_iff ..).mpr one), if_neg (by simpa using live)]
  · rcases parseFrom_cases start args with ⟨c', ranged, ok⟩ | ⟨e', code, error⟩
    · rw [parseArgs, ok] at exit
      simp only at exit
      split at exit
      · cases exit
        exact .inl rfl
      · split at exit
        · cases exit
          exact .inl rfl
        · cases exit
    · rw [parseArgs, error] at exit
      cases exit
      exact code

theorem parseArgs_configs_sample :
    Config.Valid { replayPath := ['d', 'a', 'y'], prefetch := 8 } ∧
      parseArgs (Config.render { replayPath := ['d', 'a', 'y'], prefetch := 8 }) =
        .ok { replayPath := ['d', 'a', 'y'], prefetch := 8 } := by
  have valid := parseArgs_configs.1 ["--prefetch".toList, ['8'], "--replay".toList, ['d', 'a', 'y']]
    { replayPath := ['d', 'a', 'y'], prefetch := 8 } rfl
  exact ⟨valid, parseArgs_configs.2.1 _ valid⟩

end Itch
