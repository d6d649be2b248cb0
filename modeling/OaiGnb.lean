import OaiGnb.Nfapi.Reassembly
import OaiGnb.Rlc.Am.CopyBounds
import OaiGnb.Rlc.Am.StatusSize
import OaiGnb.Rlc.Am.Window
import OaiGnb.Rlc.Am.StatusProcessing
import OaiGnb.Rlc.Am.PollTimer
import OaiGnb.Rlc.Am.Termination
import OaiGnb.Rlc.Um.Wrap
import OaiGnb.Rlc.Um.Link
import OaiGnb.Pdcp.Count
import OaiGnb.Mac.PfUl
import OaiGnb.Mac.PfDl
import OaiGnb.Mac.UlHarq
import OaiGnb.Mac.BufferStatus
import OaiGnb.Mac.UlFormat
import OaiGnb.Mac.DlRoundTrip
import OaiGnb.Mac.UlLookAhead
import OaiGnb.Mac.Riv
import OaiGnb.Mac.CsiReservation
import OaiGnb.Mac.FeedbackOrder
import OaiGnb.Mac.HarqFeedback
import OaiGnb.Mac.Pdcch
import OaiGnb.Mac.Msg4
import OaiGnb.Mac.DciFallback
import OaiGnb.Mac.CsiReport
import OaiGnb.Sdap.EndMarkers
import OaiGnb.Jbpf.WeightStream
import OaiGnb.Jbpf.WeightTable
import OaiGnb.Gtpu.Tunnels
import OaiGnb.Phy.SoftCombining
import OaiGnb.Nas.RegistrationAccept
import OaiGnb.Nas.PduSessionAccept
import OaiGnb.Rrc.Registry
