import Memhook.Engine.Flushing
import Memhook.Engine.Lifetime
import Memhook.Engine.Newest
import Memhook.Engine.Policies
import Memhook.Engine.Recency
import Memhook.Engine.Staleness
import Memhook.Hooks.Bootstrap
import Memhook.Hooks.Dlsym
import Memhook.Hooks.ElfInjection
import Memhook.Hooks.Interleaving
import Memhook.Hooks.Mappings
import Memhook.Hooks.Nesting
import Memhook.Hooks.NewHandler
import Memhook.Hooks.Phantom
import Memhook.Hooks.SpinLock
import Memhook.Hooks.StaticBuf
import Memhook.Platform.Atomics
import Memhook.Platform.Interruption
import Memhook.Platform.MutexLock
import Memhook.Platform.Sleep
import Memhook.View.Standalone
import Memhook.View.Symbols
import Memhook.Wire.MemDB
import Memhook.Wire.Peer
import Memhook.Wire.Remote
import Memhook.Wire.Senders
