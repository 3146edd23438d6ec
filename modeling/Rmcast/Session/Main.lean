import Mathlib.Tactic
import Rmcast.Orientation
import Rmcast.Session.Options

/-!
# From the command line to the client

`main` (`src/main.cpp`) up to the construction of `app::client`, and what the
constructor of the client takes over from it. Everything after that point (the
devices, the connection) belongs to the running client.
-/

namespace Rmcast.Session

/-! ## §1 Ports -/

/-- The two exceptions of `std::stoi`. -/
inductive StoiError where
  | invalidArgument
  | outOfRange
deriving DecidableEq, Repr

/-- `isspace` in the C locale. -/
def isSpace (c : Char) : Bool :=
  c = ' ' || ('\t' ≤ c && c ≤ '\r')

/-- The value of decimal digits. -/
def decimal (ds : List Char) : ℕ :=
  ds.foldl (fun n c => 10 * n + (c.toNat - '0'.toNat)) 0

/-- `std::stoi`: blanks, a sign and digits; what follows them is ignored. -/
def stoi (s : List Char) : Except StoiError ℤ :=
  let s := s.dropWhile isSpace
  let (neg, s) := match s with
    | '-' :: s => (true, s)
    | '+' :: s => (false, s)
    | s => (false, s)
  let ds := s.takeWhile Char.isDigit
  if ds = [] then .error .invalidArgument
  else
    let n : ℤ := if neg then -decimal ds else decimal ds
    if n < -2 ^ 31 ∨ 2 ^ 31 ≤ n then .error .outOfRange else .ok n

theorem not_isSpace_of_isDigit {c : Char} (h : c.isDigit) : isSpace c = false := by
  by_contra hspace
  rw [Bool.not_eq_false, isSpace, Bool.or_eq_true, Bool.and_eq_true, decide_eq_true_iff,
    decide_eq_true_iff, decide_eq_true_iff] at hspace
  rcases hspace with rfl | ⟨-, hle⟩
  · exact absurd h (by decide)
  · unfold Char.isDigit at h
    rw [Bool.and_eq_true, decide_eq_true_iff, decide_eq_true_iff] at h
    have hle' : c.toNat ≤ 13 := hle
    have hge : 48 ≤ c.toNat := h.1
    omega

def defaultServerPort : ℤ := 5900
def minPort : ℤ := 1
def maxPort : ℤ := 2 ^ 16 - 1

/-! ## §2 How `main` can end before there is a client -/

/-- The errors `main` reports before it returns `EXIT_FAILURE`. -/
inductive Failure where
  | tooManyOperands (count : ℕ)
  | noServer
  | notAPort (operand : List Char)
  | portRange (port : ℤ)
  | orientationValue
  | unknownOptions (keys : List (List Char))
deriving DecidableEq, Repr

inductive Stop where
  /-- `EXIT_SUCCESS` after the help message. -/
  | help
  /-- `EXIT_SUCCESS` after the version. -/
  | version
  | failure (f : Failure)
  /-- `std::out_of_range` leaves `main`. -/
  | uncaught
deriving DecidableEq, Repr

/-! ## §3 Operands and options -/

/-- `getenv`. -/
abbrev Environ := List Char → Option (List Char)

/-- `setenv`, replacing what is there. -/
def Environ.insert (env : Environ) (k v : List Char) : Environ :=
  fun k' => if k' = k then some (cString v) else env k'

@[simp] theorem Environ.insert_self (env : Environ) (k v : List Char) :
    env.insert k v k = some (cString v) :=
  if_pos rfl

theorem Environ.insert_of_ne {env : Environ} {k k' v : List Char} (h : k' ≠ k) :
    env.insert k v k' = env k' :=
  if_neg h

/-- The first field of `SSH_CONNECTION`, without the prefix of an IPv4-mapped
address. -/
def remoteIp (conn : List Char) : List Char :=
  let field := conn.takeWhile (· ≠ ' ')
  if "::ffff:".toList.isPrefixOf conn then field.drop "::ffff:".toList.length
  else field

/-- `server_ip`. -/
def serverIp (env : Environ) (oper : List (List Char)) : Except Stop (List Char) :=
  match oper[0]? with
  | some ip => .ok ip
  | none => match env "SSH_CONNECTION".toList with
    | none => .error (.failure .noServer)
    | some conn => .ok (remoteIp conn)

/-- `server_port`: the catch clause knows `std::invalid_argument` only. -/
def serverPort (oper : List (List Char)) : Except Stop ℤ :=
  match oper[1]? with
  | none => .ok defaultServerPort
  | some operand => match stoi operand with
    | .error .invalidArgument => .error (.failure (.notAPort operand))
    -- `std::out_of_range` passes the catch clause
    | .error .outOfRange => .error .uncaught
    | .ok port =>
      if port < minPort ∨ port > maxPort then .error (.failure (.portRange port))
      else .ok port

/-- What the options say. -/
structure Settings where
  /-- The flags of `rmioc::device_request`, besides the screen. -/
  buttons : Bool
  pen : Bool
  touch : Bool
  orientation : Orientation
  autoRotate : Bool
  lockRotation : Bool
deriving DecidableEq

/-- The value of `--orientation`: the first one given. -/
def orientationOption (opts : Dictionary) : Except Stop Orientation :=
  if opts.count "orientation".toList ≥ 1 then
    match opts.values "orientation".toList with
    | [] => .error (.failure .orientationValue)
    | value :: _ => .ok (Orientation.fromString value)
  else .ok .Auto

/-- The options `main` knows, besides `help` and `version`. -/
def knownOptions : List (List Char) :=
  ["no-buttons".toList, "no-pen".toList, "no-touch".toList, "orientation".toList,
   "auto-rotate".toList, "no-lock-rotation".toList]

/-- An option that is not erased is an error. -/
def rejectUnknown (rest : Dictionary) : Except Stop Unit :=
  if rest = [] then .ok ()
  else .error (.failure (.unknownOptions (rest.map (·.1))))

/-- Reads and erases the options. -/
def settings (opts : Dictionary) : Except Stop Settings := do
  let orientation ← orientationOption opts
  rejectUnknown (knownOptions.foldl Dictionary.erase opts)
  return {
    buttons := opts.count "no-buttons".toList = 0
    pen := opts.count "no-pen".toList = 0
    touch := opts.count "no-touch".toList = 0
    orientation := orientation
    autoRotate := opts.count "auto-rotate".toList ≥ 1
    lockRotation := opts.count "no-lock-rotation".toList = 0 }

/-! ## §4 `main` -/

/-- What `app::client` is constructed with. -/
structure Client where
  /-- `serverHost`, a copy of the C string. -/
  serverHost : List Char
  serverPort : ℤ
  password : List Char
  /-- The requested orientation of `app::screen`. -/
  orientation : Orientation
  settings : Settings
  environ : Environ

/-- The landscape start: outside vncast, a device that lies in landscape asks
for a landscape buffer and copies the source as it is. -/
def startOrientation (env : Environ) (startLandscape : Bool) (o : Orientation) :
    Orientation × Environ :=
  if o = .Auto ∧ env "VNCAST_QTFB_SOCKET".toList = none ∧ startLandscape then
    (.Portrait,
      match env "QTFB_RESOLUTION".toList with
      | none => env.insert "QTFB_RESOLUTION".toList "2160x1620".toList
      | some _ => env)
  else (o, env)

/-- The requests that end `main` at once, and the number of operands. -/
def screenRequest (opts : Dictionary) (oper : List (List Char)) : Except Stop Unit :=
  if opts.count "help".toList ≥ 1 ∨ opts.count "h".toList ≥ 1 then .error .help
  else if opts.count "version".toList ≥ 1 ∨ opts.count "v".toList ≥ 1 then
    .error .version
  else if oper.length > 3 then .error (.failure (.tooManyOperands oper.length))
  else .ok ()

/-- `main`, with the reading of the accelerometer it takes at the start. -/
def main (env : Environ) (startLandscape : Bool) (args : List (List Char)) :
    Except Stop Client := do
  let (opts, oper) := parse args
  screenRequest opts oper
  let ip ← serverIp env oper
  let port ← serverPort oper
  let set ← settings opts
  let (orientation, environ) := startOrientation env startLandscape set.orientation
  return {
    serverHost := cString ip
    serverPort := port
    password := (oper[2]?).getD []
    orientation := orientation
    settings := set
    environ := environ }

/-- One step of a run that ends well. -/
theorem bind_ok {ε α β : Type} {x : Except ε α} {f : α → Except ε β} {b : β}
    (h : x >>= f = .ok b) : ∃ a, x = .ok a ∧ f a = .ok b := by
  cases x with
  | error e => cases h
  | ok a => exact ⟨a, rfl, h⟩

/-- With one operand or none, the port is the default. -/
theorem serverPort_of_length {oper : List (List Char)} (h : oper.length ≤ 1) :
    serverPort oper = .ok defaultServerPort := by
  unfold serverPort
  rw [List.getElem?_eq_none h]

/-- A run of `main` on at most one argument connects to the default port, if
it connects. -/
theorem main_port {env : Environ} {startLandscape : Bool} {args : List (List Char)}
    {c : Client} (hargs : args.length ≤ 1) (h : main env startLandscape args = .ok c) :
    c.serverPort = defaultServerPort := by
  have hport := serverPort_of_length ((parse_operands_length args).trans hargs)
  unfold main at h
  obtain ⟨_, -, h⟩ := bind_ok h
  obtain ⟨ip, -, h⟩ := bind_ok h
  obtain ⟨port, hp, h⟩ := bind_ok h
  obtain ⟨set, -, h⟩ := bind_ok h
  cases hport.symm.trans hp
  cases h
  rfl

/-- A single argument that does not begin with a dash is the server, and
everything else has its default. -/
theorem main_host {env : Environ} (startLandscape : Bool) {host : List Char}
    (hdash : host.head? ≠ some '-') (hvncast : env "VNCAST_QTFB_SOCKET".toList ≠ none) :
    ∃ c, main env startLandscape [host] = .ok c ∧ c.serverHost = cString host ∧
      c.serverPort = defaultServerPort ∧ c.orientation = .Auto := by
  have hstart : startOrientation env startLandscape .Auto = (.Auto, env) :=
    if_neg fun h => hvncast h.2.1
  have hset : settings [] = .ok ⟨true, true, true, .Auto, false, true⟩ := by decide
  refine ⟨⟨cString host, defaultServerPort, [], .Auto,
    ⟨true, true, true, .Auto, false, true⟩, env⟩, ?_, rfl, rfl, rfl⟩
  unfold main
  rw [parse_operand hdash]
  show (settings [] >>= fun set => Except.ok (Client.mk (cString host) defaultServerPort []
    (startOrientation env startLandscape set.orientation).1 set
    (startOrientation env startLandscape set.orientation).2)) = _
  rw [hset]
  show Except.ok (Client.mk (cString host) defaultServerPort []
    (startOrientation env startLandscape .Auto).1 _
    (startOrientation env startLandscape .Auto).2) = _
  rw [hstart]

end Rmcast.Session
