import Mathlib.Tactic
import Rmcast.Session.Main

/-!
# The launcher starts vnsee

`VncastLauncher::startSession` (`launcher.cpp`) turns a session config into
an argument list and an environment; `main` turns those into a client. The
two do not agree on how a port is passed (`host:display` against `IP PORT`)
nor on how an orientation is (an environment variable against `--orientation`),
so the config arrives only where it says what `main` assumes anyway.
-/

namespace Rmcast.Session

/-- The session config, with the defaults of `startSession`. -/
structure SessionConfig where
  host : List Char := "10.11.99.2".toList
  port : ℤ := 5900
  fps : ℤ := 0
  encoding : List Char := "COPYRECT".toList
  orientation : List Char := "auto".toList
  grayscale : Bool := true
  mono1 : Bool := false
  lowLatency : Bool := false
  savedWaveform : List Char := "A2".toList
  compressLevel : ℤ := 0
deriving DecidableEq

/-- Low latency forces `DU`. -/
def SessionConfig.waveform (cfg : SessionConfig) : List Char :=
  if cfg.lowLatency then "DU".toList else cfg.savedWaveform

/-- `kQtfbSocket`. -/
def kQtfbSocket : List Char := "/run/vncast.sock".toList

/-- The argument list. `arg` is `QStringLiteral("%1:%2").arg(..).arg(..)`. -/
def sessionArgs (arg : List Char → ℤ → List Char) (cfg : SessionConfig) :
    List (List Char) :=
  if cfg.port = 5900 then [cfg.host] else [arg cfg.host (cfg.port - 5900)]

/-- `QString::number`. -/
def number (n : ℤ) : List Char := (toString n).toList

def flag (b : Bool) : List Char := if b then ['1'] else ['0']

/-- The environment of the process, over that of the launcher. -/
def sessionEnv (system : Environ) (cfg : SessionConfig) : Environ :=
  let env := system.insert "VNCAST_QTFB_SOCKET".toList kQtfbSocket
  let env := env.insert "VNCAST_FPS".toList (number cfg.fps)
  let env := if cfg.encoding ≠ "COPYRECT".toList then
      env.insert "VNSEE_ENCODING".toList cfg.encoding
    else env
  let env := env.insert "VNCAST_WAVEFORM".toList cfg.waveform
  let env := env.insert "VNCAST_ORIENTATION".toList cfg.orientation
  let env := env.insert "VNCAST_FORCE_GRAYSCALE".toList (flag cfg.grayscale)
  let env := env.insert "VNCAST_PREFER_MONO1".toList (flag cfg.mono1)
  env.insert "VNCAST_COMPRESS_LEVEL".toList (number cfg.compressLevel)

/-- The process that `startSession` spawns: `argv` holds C strings. -/
def startSession (arg : List Char → ℤ → List Char) (system : Environ)
    (startLandscape : Bool) (cfg : SessionConfig) : Except Stop Client :=
  main (sessionEnv system cfg) startLandscape ((sessionArgs arg cfg).map cString)

/-- The client runs with what the config says. -/
def RunsWith (cfg : SessionConfig) (r : Except Stop Client) : Prop :=
  ∃ c, r = .ok c ∧ c.serverHost = cfg.host ∧ c.serverPort = cfg.port ∧
    c.orientation = Orientation.fromString cfg.orientation

/-- The session always uses the vncast socket. -/
theorem sessionEnv_socket (system : Environ) (cfg : SessionConfig) :
    sessionEnv system cfg "VNCAST_QTFB_SOCKET".toList ≠ none := by
  intro h
  unfold sessionEnv at h
  rw [Environ.insert_of_ne (by decide), Environ.insert_of_ne (by decide),
    Environ.insert_of_ne (by decide), Environ.insert_of_ne (by decide),
    Environ.insert_of_ne (by decide)] at h
  split at h
  · rw [Environ.insert_of_ne (by decide), Environ.insert_of_ne (by decide),
      Environ.insert_self] at h
    cases h
  · rw [Environ.insert_of_ne (by decide), Environ.insert_self] at h
    cases h

theorem cString_idem (s : List Char) : cString (cString s) = cString s :=
  cString_eq_self_iff.mpr fun h => by
    have := List.mem_takeWhile_imp h
    simp at this

theorem cString_head {s : List Char} (h : s.head? ≠ some '-') :
    (cString s).head? ≠ some '-' := by
  cases s with
  | nil => exact h
  | cons c s =>
      unfold cString
      rw [List.takeWhile_cons]
      split
      · exact h
      · exact Option.some_ne_none '-' ∘ Eq.symm

/-- With the default port, the client gets the host and the orientation
`Auto`, whatever orientation the config names. -/
theorem startSession_default (arg : List Char → ℤ → List Char) (system : Environ)
    (startLandscape : Bool) {cfg : SessionConfig} (hport : cfg.port = 5900)
    (hdash : cfg.host.head? ≠ some '-') :
    ∃ c, startSession arg system startLandscape cfg = .ok c ∧
      c.serverHost = cString cfg.host ∧ c.serverPort = 5900 ∧
      c.orientation = .Auto := by
  obtain ⟨c, hc, hhost, hp, ho⟩ := main_host startLandscape
    (cString_head hdash) (sessionEnv_socket system cfg)
  refine ⟨c, ?_, hhost.trans (cString_idem _), hp, ho⟩
  unfold startSession sessionArgs
  rw [if_pos hport]
  exact hc

/-- The operand made of host and port is a single one, so a client connects to
the default port. -/
theorem startSession_port {arg : List Char → ℤ → List Char} {system : Environ}
    {startLandscape : Bool} {cfg : SessionConfig} {c : Client}
    (h : startSession arg system startLandscape cfg = .ok c) :
    c.serverPort = 5900 := by
  refine main_port ?_ h
  unfold sessionArgs
  split
  · exact le_refl 1
  · exact le_refl 1

/-- **What the launcher is configured with.** vnsee runs with the config's
host, port and orientation exactly when the port is the default one, the
orientation is the one resolved automatically, and the host has no NUL. -/
theorem session_runs_iff (arg : List Char → ℤ → List Char) (system : Environ)
    (startLandscape : Bool) (cfg : SessionConfig) (hdash : cfg.host.head? ≠ some '-') :
    RunsWith cfg (startSession arg system startLandscape cfg) ↔
      cfg.port = 5900 ∧ Orientation.fromString cfg.orientation = .Auto ∧
        '\x00' ∉ cfg.host := by
  constructor
  · rintro ⟨c, hc, hhost, hp, ho⟩
    have hport : cfg.port = 5900 := hp.symm.trans (startSession_port hc)
    obtain ⟨c', hc', hhost', -, ho'⟩ :=
      startSession_default arg system startLandscape hport hdash
    obtain rfl : c = c' := Except.ok.inj (hc.symm.trans hc')
    exact ⟨hport, ho.symm.trans ho', cString_eq_self_iff.mp (hhost'.symm.trans hhost)⟩
  · rintro ⟨hport, ho, hnul⟩
    obtain ⟨c, hc, hhost, hp, ho'⟩ :=
      startSession_default arg system startLandscape hport hdash
    exact ⟨c, hc, hhost.trans (cString_eq_self_iff.mpr hnul), hp.trans hport.symm,
      ho'.trans ho.symm⟩

/-- The default config, which meets the condition. -/
theorem session_runs_default :
    RunsWith {} (startSession (fun h n => h ++ ':' :: number n) (fun _ => none) false {}) :=
  (session_runs_iff _ _ _ {} (by decide)).mpr ⟨rfl, by decide, by decide⟩

/-- A config for port 5901: the operand `10.0.0.2:1` becomes the host, and the
port stays 5900. -/
theorem session_port_lost :
    ¬ ∀ (arg : List Char → ℤ → List Char) (system : Environ) (startLandscape : Bool)
      (cfg : SessionConfig), cfg.host ≠ [] → cfg.host.head? ≠ some '-' →
      1 ≤ cfg.port → cfg.port ≤ 65535 →
      RunsWith cfg (startSession arg system startLandscape cfg) := by
  intro h
  obtain ⟨c, hc, -, hp, -⟩ := h (fun h n => h ++ ':' :: number n) (fun _ => none) false
    { host := "10.0.0.2".toList, port := 5901 } (by decide) (by decide) (by decide)
    (by decide)
  have h5900 : (5901 : ℤ) = 5900 := hp.symm.trans (startSession_port hc)
  exact absurd h5900 (by decide)

end Rmcast.Session
