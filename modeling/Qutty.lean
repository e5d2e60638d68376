import Qutty.Tmux.Replies
import Qutty.Tmux.Framing
import Qutty.Window.Exit
import Qutty.Window.Modes
import Qutty.Window.Recognition
import Qutty.Tmux.Realisation
import Qutty.Lib.Istream
import Qutty.Lib.OrderedMap
import Qutty.Pane.TabIndex
import Qutty.Pane.Orientation
import Qutty.Pane.TerminalList
import Qutty.Pane.TabOrder
import Qutty.Find.NextOccurrence
import Qutty.Find.Visible
import Qutty.Navigation.PaneDirection
import Qutty.Navigation.PaneSwitcher
import Qutty.Navigation.TabSwitcher
import Qutty.Tmux.PaneTable
import Qutty.Tmux.Lifetime
import Qutty.Tmux.WindowIds
import Qutty.Tmux.Output
import Qutty.Config.Conf
import Qutty.Config.MruList
import Qutty.Tmux.LayoutSoundness
import Qutty.Tmux.LayoutDump
import Qutty.Tmux.LayoutRejection
import Qutty.Tmux.WindowRecords
import Qutty.Tmux.StateRestoring
import Qutty.Tmux.OwnLine
import Qutty.Tmux.OutputDecoding
import Qutty.Terminal.Ldisc
import Qutty.Config.HostKeys
import Qutty.Config.SessionLoss
import Qutty.Config.SessionTree
import Qutty.Config.SessionTreeFaithful
import Qutty.Config.SessionValidity
import Qutty.Config.Sessions
import Qutty.Net.Sending
import Qutty.Net.Receiving
import Qutty.Tmux.OutputBuffer
import Qutty.Config.RegistryNames
import Qutty.Menu.ShortcutTable
import Qutty.Config.NumbersRoundTrip
import Qutty.Config.TextRoundTrip
import Qutty.Config.BadElements
import Qutty.Menu.CustomSessions
import Qutty.Dialog.Opening
import Qutty.Net.TelnetMessages
import Qutty.Net.TelnetEffects
import Qutty.Terminal.ScrollbackRoundTrip
import Qutty.Terminal.Utf8
import Qutty.Events.TimingRuns
import Qutty.Events.UpdateRuns
