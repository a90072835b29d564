import ChatRooms.Canonical
import ChatRooms.PollfdAppend
import ChatRooms.Segmentation
import ChatRooms.Server.Delivery
import ChatRooms.Server.PollSet
import ChatRooms.Server.Names
import ChatRooms.Server.Pass
import ChatRooms.Server.Termination
import ChatRooms.Server.Broadcast
import ChatRooms.JoinCommand
import ChatRooms.Hangup
import ChatRooms.WireFormat
import ChatRooms.CommandBuffers
import ChatRooms.InputLines
import ChatRooms.Wakeup
import ChatRooms.Server.RoomCalls
import ChatRooms.Server.Reorder
import ChatRooms.ClientBuffers
import ChatRooms.Server.HeapedMain
import ChatRooms.System.Agreement
import ChatRooms.System.FromStart
