import SwiftApp.AliyunOSSTool

namespace SwiftApp

variable {α β : Type}

end SwiftApp
