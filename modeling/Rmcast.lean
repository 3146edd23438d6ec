import Rmcast.Lib.Memory
import Rmcast.Lib.Loop
import Rmcast.Lib.Rect
import Rmcast.Lib.Word
import Rmcast.Lib.Framing
import Rmcast.Lib.RunLength
import Rmcast.Lib.Undo
import Rmcast.Lib.Plane
import Rmcast.Lib.Ecma
import Rmcast.Lib.Window
import Rmcast.Lib.Picture
import Rmcast.Orientation
import Rmcast.Qtfb.Protocol
import Rmcast.Qtfb.Stream
import Rmcast.Qtfb.Server
import Rmcast.Qtfb.Chunking
import Rmcast.Qtfb.Gating
import Rmcast.Qtfb.FpsCap
import Rmcast.Qtfb.Lifetime
import Rmcast.Qtfb.ClockStep
import Rmcast.Qtfb.TestClient
import Rmcast.Vncast.Shm
import Rmcast.Vncast.Client
import Rmcast.Vncast.Delivery
import Rmcast.Vncast.Handshake
import Rmcast.Vncast.Coalesce
import Rmcast.Vncast.FrameRate
import Rmcast.Vncast.Clients
import Rmcast.Screen.Blit
import Rmcast.Screen.Device
import Rmcast.Screen.Updates
import Rmcast.Screen.Cursor
import Rmcast.Screen.Input
import Rmcast.Screen.Trace
import Rmcast.Screen.Announce
import Rmcast.Screen.Followup
import Rmcast.Screen.Damage
import Rmcast.Screen.Sensor
import Rmcast.Screen.Exact
import Rmcast.Screen.Stale
import Rmcast.Screen.Dominance
import Rmcast.Screen.Areas
import Rmcast.Rfb.Mono
import Rmcast.Rfb.MonoPixels
import Rmcast.Rfb.Encodings
import Rmcast.Rfb.MonoSafe
import Rmcast.Session.Main
import Rmcast.Session.Launcher
import Rmcast.Session.RotationLock
import Rmcast.Session.Port
import Rmcast.Session.Framebuffer
import Rmcast.Client.EventLoop
import Rmcast.Client.ReadAhead
import Rmcast.View.FrameView
import Rmcast.View.CursorMap
import Rmcast.View.Invalidate
import Rmcast.View.Placeholder
import Rmcast.Config.HostPort
import Rmcast.Installer.Backup
